import ChartOverlay.Proofs.DoubleRange

/-!
# The nearest double

An operation rounds its exact result once: `rounds_roundWithAccuracy` says so of every rounding that knows on which
side of the middle the exact value lies. So a decimal is read as the double nearest to it
(`isNearest_ofScientific`, `isNearest_ofNat`), and a quotient that is a whole number of 53 bits is that number
(`ratio_nearest`).
-/

namespace ChartOverlay.Double

open Float.Model (Format UnpackedFloat totalExponent)
open Float.Model.UnpackedFloat

/-! ### Values -/

/-- The exact value of a finite double. -/
def ratio (x : Float) : ℚ := (toQuotient x).1 / (toQuotient x).2

def IsEven : UnpackedFloat → Prop
  | .finite _ m _ _ => m % 2 = 0
  | _ => True

/-- No finite double is nearer to a rational number, and of two that are equally near it is the one with the even
significand. -/
def IsNearest (r : ℚ) (x : Float) : Prop :=
  Arith.isFinite x = true ∧ ∀ y : Float, Arith.isFinite y = true →
    |ratio x - r| < |ratio y - r| ∨ ratio y = ratio x ∨
      |ratio x - r| = |ratio y - r| ∧ IsEven x.toModel.unpack

def value : UnpackedFloat → ℚ
  | .finite s m e _ => (s.apply m : ℤ) * 2 ^ e
  | _ => 0

theorem quotient_eq (negative : Bool) (m : Nat) (e : Int) :
    ((quotient negative m e).1 / (quotient negative m e).2 : ℚ) = (if negative then -(m : ℚ) else m) * 2 ^ e := by
  have exponent : (2 : ℚ) ^ e = 2 ^ e.toNat / 2 ^ (-e).toNat := by
    rw [← zpow_natCast, ← zpow_natCast, ← zpow_sub₀ (by norm_num)]
    congr 1
    omega
  rw [exponent]
  cases negative <;> simp [quotient, mul_div_assoc, neg_div]

theorem ratio_eq (x : Float) : ratio x = value x.toModel.unpack := by
  unfold ratio toQuotient parts?
  rcases x.toModel.unpack with s | _ | s | ⟨_ | _, m, e, pos⟩
  · simp [value]
  · simp [value]
  · cases s <;> simp [value, quotient]
  · simp [value, Sign.apply, quotient_eq]
  · simp [value, Sign.apply, quotient_eq]

/-! ### Rounding to whole numbers -/

/-- Where a number lies between a whole number and the next. -/
def Lies (w : ℚ) (m : Nat) : Accuracy → Prop
  | .exact => w = m
  | .inexact .lt => m < w ∧ w < m + 1 / 2
  | .inexact .eq => w = m + 1 / 2
  | .inexact .gt => m + 1 / 2 < w ∧ w < m + 1

theorem Lies.le {w : ℚ} {m : Nat} {accuracy : Accuracy} (h : Lies w m accuracy) : m ≤ w := by
  rcases accuracy with _ | _ | _ | _ <;> simp only [Lies] at h <;> linarith

theorem accuracy_ofMantissaAndAccuracy (m : Nat) (accuracy : Accuracy) :
    (ExtendedMantissa.ofMantissaAndAccuracy m accuracy).accuracy = accuracy := by
  rcases accuracy with _ | _ | _ | _ <;> rfl

/-- The lost bits tell on which side of the middle a number lies. -/
theorem lies_shiftRightOne {w : ℚ} {em : ExtendedMantissa} (h : Lies w em.mantissa em.accuracy) :
    Lies (w / 2) em.shiftRightOne.mantissa em.shiftRightOne.accuracy := by
  obtain ⟨m, roundBit, stickyBit⟩ := em
  have parts : (m : ℚ) = 2 * (m / 2 : ℕ) + (m % 2 : ℕ) := by
    exact_mod_cast (Nat.div_add_mod m 2).symm
  generalize halved : m / 2 = k at parts
  rcases Nat.mod_two_eq_zero_or_one m with even | odd
  · rw [even, Nat.cast_zero, add_zero] at parts
    cases roundBit <;> cases stickyBit <;>
      simp only [ExtendedMantissa.accuracy, Lies, parts] at h <;>
      simp [ExtendedMantissa.shiftRightOne, ExtendedMantissa.accuracy, Lies, halved, even] <;>
      first
      | linarith
      | constructor <;> linarith
  · rw [odd, Nat.cast_one] at parts
    cases roundBit <;> cases stickyBit <;>
      simp only [ExtendedMantissa.accuracy, Lies, parts] at h <;>
      simp [ExtendedMantissa.shiftRightOne, ExtendedMantissa.accuracy, Lies, halved, odd] <;>
      first
      | linarith
      | constructor <;> linarith

theorem lies_shiftRight {w : ℚ} {em : ExtendedMantissa} (h : Lies w em.mantissa em.accuracy) (k : Nat) :
    Lies (w / 2 ^ k) (em >>> k).mantissa (em >>> k).accuracy := by
  induction k with
  | zero => simpa [HShiftRight.hShiftRight, Nat.repeat] using h
  | succ k ih =>
    rw [pow_succ, ← div_div]
    exact lies_shiftRightOne ih

/-- Rounding goes to the nearest whole number, and from the middle to the even one. -/
theorem roundedMantissa_nearest {w : ℚ} {em : ExtendedMantissa} (h : Lies w em.mantissa em.accuracy) (z : ℤ) :
    |em.roundedMantissa - w| < |z - w| ∨ z = em.roundedMantissa ∨
      |em.roundedMantissa - w| = |z - w| ∧ em.roundedMantissa % 2 = 0 := by
  have half : |em.roundedMantissa - w| < 1 / 2 ∨
      |em.roundedMantissa - w| = 1 / 2 ∧ em.roundedMantissa % 2 = 0 := by
    obtain ⟨m, _ | _, _ | _⟩ := em <;>
      simp only [ExtendedMantissa.accuracy, Lies, ExtendedMantissa.roundedMantissa,
        Accuracy.roundToNearestEven] at h ⊢
    · left
      rw [h, sub_self]
      norm_num
    · left
      rw [abs_lt]
      constructor <;> linarith
    · right
      rcases Nat.mod_two_eq_zero_or_one m with even | odd
      · rw [even, h]
        refine ⟨?_, by omega⟩
        norm_num [abs_of_neg]
      · rw [odd, h]
        refine ⟨?_, by omega⟩
        push_cast
        norm_num
    · left
      rw [abs_lt]
      push_cast
      constructor <;> linarith
  by_cases same : z = em.roundedMantissa
  · exact Or.inr (Or.inl same)
  have apart : (1 : ℚ) ≤ |(z : ℚ) - em.roundedMantissa| := by
    exact_mod_cast Int.one_le_abs (sub_ne_zero.mpr same)
  have triangle := abs_sub_le (z : ℚ) w em.roundedMantissa
  rw [abs_sub_comm w] at triangle
  rcases half with near | ⟨middle, even⟩
  · exact Or.inl (by linarith)
  · rcases lt_or_eq_of_le (show |em.roundedMantissa - w| ≤ |z - w| by linarith) with closer | equal
    · exact Or.inl closer
    · exact Or.inr (Or.inr ⟨equal, even⟩)

/-! ### Rounding to doubles -/

/-- Significands that are cut carry all 53 bits unless their exponent is the least one. -/
theorem le_cut {m : Nat} {e : Int} (wide : 52 ≤ m.log2 ∨ e ≤ -1074) (above : -1074 < e + cut m e) :
    2 ^ 52 ≤ m / 2 ^ cut m e := by
  rw [cut_eq] at above
  have bits : 52 + cut m e ≤ m.log2 := by
    rw [cut_eq]
    omega
  have pos : m ≠ 0 := by
    rintro rfl
    rw [Nat.log2_zero] at bits
    omega
  rw [Nat.le_div_iff_mul_le (Nat.two_pow_pos _), ← Nat.pow_add]
  exact Nat.le_trans (Nat.pow_le_pow_right Nat.two_pos bits) (Nat.log2_self_le pos)

theorem lies_cut {w : ℚ} {m : Nat} {accuracy : Accuracy} (h : Lies w m accuracy) (k : Nat) :
    Lies (w / 2 ^ k) (ExtendedMantissa.ofMantissaAndAccuracy m accuracy >>> k).mantissa
      (ExtendedMantissa.ofMantissaAndAccuracy m accuracy >>> k).accuracy := by
  apply lies_shiftRight
  rwa [mantissa_ofMantissaAndAccuracy, accuracy_ofMantissaAndAccuracy]

/-- No number of 53 bits is nearer than the rounded one, whatever its exponent. -/
theorem rounded_nearest {v : ℚ} {m : Nat} {e : Int} {accuracy : Accuracy} (h : Lies (v / 2 ^ e) m accuracy)
    (wide : 52 ≤ m.log2 ∨ e ≤ -1074) {n f : Int} (bits : |n| < 2 ^ 53) (least : -1074 ≤ f) :
    |rounded m e accuracy - v / 2 ^ (e + cut m e)| < |n * 2 ^ (f - (e + cut m e)) - v / 2 ^ (e + cut m e)| ∨
      (n * 2 ^ (f - (e + cut m e)) : ℚ) = rounded m e accuracy ∨
      |rounded m e accuracy - v / 2 ^ (e + cut m e)| = |n * 2 ^ (f - (e + cut m e)) - v / 2 ^ (e + cut m e)| ∧
        rounded m e accuracy % 2 = 0 := by
  have scaled := lies_cut h (cut m e)
  rw [div_div, ← zpow_natCast, ← zpow_add₀ (by norm_num)] at scaled
  rcases le_or_gt (e + cut m e) f with whole | finer
  · obtain ⟨k, shift⟩ := Int.eq_ofNat_of_zero_le (sub_nonneg.mpr whole)
    have nearest := roundedMantissa_nearest scaled (n * 2 ^ k)
    rw [shift, zpow_natCast]
    rcases nearest with closer | same | middle
    · exact Or.inl (by exact_mod_cast closer)
    · exact Or.inr (Or.inl (by exact_mod_cast same))
    · exact Or.inr (Or.inr (by exact_mod_cast middle))
  -- a finer grid is finer only below all significands of 53 bits
  · left
    have lower := scaled.le
    rw [mantissa_shiftRight, mantissa_ofMantissaAndAccuracy] at lower
    have filled : (2 ^ 52 : ℚ) ≤ v / 2 ^ (e + cut m e : ℤ) := by
      refine le_trans ?_ lower
      exact_mod_cast le_cut wide (by omega)
    have half : (2 : ℚ) ^ (f - (e + cut m e)) ≤ 2 ^ (-1 : ℤ) := zpow_le_zpow_right₀ (by norm_num) (by omega)
    have below : (n : ℚ) * 2 ^ (f - (e + cut m e)) < 2 ^ 52 := by
      have upper : (n : ℚ) < 2 ^ 53 := by exact_mod_cast lt_of_abs_lt bits
      have sign : (0 : ℚ) < 2 ^ (f - (e + cut m e)) := by positivity
      calc (n : ℚ) * 2 ^ (f - (e + cut m e))
        _ < 2 ^ 53 * 2 ^ (f - (e + cut m e)) := mul_lt_mul_of_pos_right upper sign
        _ ≤ 2 ^ 53 * 2 ^ (-1 : ℤ) := mul_le_mul_of_nonneg_left half (by norm_num)
        _ = 2 ^ 52 := by norm_num
    have nearest : |rounded m e accuracy - v / 2 ^ (e + cut m e : ℤ)| ≤ |2 ^ 52 - v / 2 ^ (e + cut m e : ℤ)| := by
      rcases roundedMantissa_nearest scaled (2 ^ 52) with closer | same | middle
      · exact le_of_lt (by exact_mod_cast closer)
      · have equal : (rounded m e accuracy : ℚ) = 2 ^ 52 := by exact_mod_cast same.symm
        rw [equal]
      · exact le_of_eq (by exact_mod_cast middle.1)
    rw [abs_sub_comm (2 ^ 52 : ℚ), abs_of_nonneg (sub_nonneg.mpr filled)] at nearest
    rw [abs_sub_comm ((n : ℚ) * _), abs_of_pos (sub_pos.mpr (lt_of_lt_of_le below filled))]
    linarith

def unit : Sign → ℚ
  | .negative => -1
  | .positive => 1

theorem value_zero (s : Sign) : value (.zero s) = 0 := rfl

theorem value_finite (s : Sign) (m : Nat) (e : Int) (pos : 0 < m) :
    value (.finite s m e pos) = unit s * m * 2 ^ e := by
  cases s <;> simp [value, Sign.apply, unit]

theorem rounded_le_pow (m : Nat) (e : Int) (accuracy : Accuracy) : rounded m e accuracy ≤ 2 ^ 53 := by
  have upper := rounded_le m e accuracy
  have bits := (cut_lt m e).1
  omega

/-- A carry into a bit 54 is cut off again, and nothing else is. -/
theorem cut_rounded (m : Nat) (e : Int) (accuracy : Accuracy) (filled : rounded m e accuracy ≠ 0) :
    cut (rounded m e accuracy) (e + cut m e) = if rounded m e accuracy < 2 ^ 53 then 0 else 1 := by
  have least := (cut_lt m e).2
  have bound := rounded_le_pow m e accuracy
  have short := Nat.log2_lt filled (k := 53)
  have long : (rounded m e accuracy).log2 < 54 := (Nat.log2_lt filled).mpr (by omega)
  rw [cut_eq]
  split <;> omega

/-- The value of what is rounded, in its canonical form. -/
theorem roundWithAccuracy_spec {m : Nat} {e : Int} (wide : 52 ≤ m.log2 ∨ e ≤ -1074) (s : Sign)
    (accuracy : Accuracy) :
    IsCanonical (roundWithAccuracy .binary64 s m e accuracy) ∧
      (roundWithAccuracy .binary64 s m e accuracy).isFinite = true ∧
      value (roundWithAccuracy .binary64 s m e accuracy) = unit s * rounded m e accuracy * 2 ^ (e + cut m e) ∧
      (rounded m e accuracy % 2 = 0 → IsEven (roundWithAccuracy .binary64 s m e accuracy)) := by
  have least := (cut_lt m e).2
  have lower : m / 2 ^ cut m e ≤ rounded m e accuracy := by
    have kept := le_roundedMantissa (ExtendedMantissa.ofMantissaAndAccuracy m accuracy >>> cut m e)
    rwa [mantissa_shiftRight, mantissa_ofMantissaAndAccuracy] at kept
  have upper := rounded_le_pow m e accuracy
  have carry := cut_rounded m e accuracy
  have canonical := le_cut wide
  rw [roundWithAccuracy_eq]
  generalize rounded m e accuracy = r at *
  generalize e + cut m e = top at *
  by_cases zero : r = 0
  · subst zero
    rw [dif_pos (Nat.zero_div _)]
    exact ⟨trivial, rfl, by simp [value], fun _ => trivial⟩
  rw [carry zero]
  by_cases short : r < 2 ^ 53
  · simp only [if_pos short, pow_zero, Nat.div_one, dif_neg zero, value_finite, Nat.cast_zero, add_zero]
    exact ⟨⟨short, least, by omega⟩, rfl, trivial, id⟩
  · obtain rfl : r = 2 ^ 53 := by omega
    have half : 2 ^ 53 / 2 ^ 1 = 2 ^ 52 := by norm_num
    simp only [if_neg short, half]
    rw [dif_neg (by norm_num), value_finite, zpow_add₀ (by norm_num)]
    refine ⟨⟨by norm_num, by omega, Or.inr le_rfl⟩, rfl, ?_, fun _ => by norm_num [IsEven]⟩
    norm_num
    ring

/-! ### Packing a rounded value -/

theorem finite_congr {s : Sign} {m n : Nat} {e f : Int} {left : 0 < m} {right : 0 < n} (significand : m = n)
    (exponent : e = f) : (UnpackedFloat.finite s m e left) = .finite s n f right := by
  subst significand exponent
  rfl

/-- A canonical value survives packing unless its exponent is above the greatest one. -/
theorem unpack_pack_finite {s : Sign} {m : Nat} {e : Int} {pos : 0 < m}
    (canonical : IsCanonical (.finite s m e pos)) (top : e ≤ 971) :
    unpack .binary64 (pack .binary64 (.finite s m e pos)) = .finite s m e pos := by
  have bias : (Format.binary64.exponentBias : Int) = 1023 := rfl
  obtain ⟨bits, least, form⟩ := canonical
  have log : m.log2 < 53 := (Nat.log2_lt (Nat.ne_of_gt pos)).mpr bits
  have fits : ¬2048 ≤ (e + 1075).toNat + 1 := by omega
  rw [pack_finite, if_neg fits]
  split
  · rename_i filled
    have lower : 2 ^ 52 ≤ m := by
      rw [← Nat.le_log2 (Nat.ne_of_gt pos)]
      omega
    have normal : BitVec.ofNat 11 (e + 1075).toNat ≠ 0#11 := by
      rw [Ne, ← BitVec.toNat_inj, BitVec.toNat_ofNat, BitVec.toNat_ofNat]
      omega
    unfold unpack
    simp only [unpackMantissa_packComponents, unpackExponent_packComponents, unpackSign_packComponents,
      sign_ofBitVec_toBitVec, biased_ne_top fits, if_false, normal]
    apply finite_congr
    · rw [toNat_one_append, BitVec.toNat_ofNat]
      omega
    · rw [bias, BitVec.toNat_ofNat]
      omega
  · rename_i short
    have narrow : m < 2 ^ 52 := (Nat.log2_lt (Nat.ne_of_gt pos)).mp (by omega)
    have stored : BitVec.ofNat 52 m ≠ 0#52 := by
      rw [Ne, ← BitVec.toNat_inj, BitVec.toNat_ofNat, BitVec.toNat_ofNat]
      omega
    unfold unpack
    simp only [unpackMantissa_packComponents, unpackExponent_packComponents, unpackSign_packComponents,
      sign_ofBitVec_toBitVec]
    refine (if_neg zero_ne_neg_one).trans ((if_pos rfl).trans ((dif_neg stored).trans ?_))
    apply finite_congr
    · rw [BitVec.toNat_ofNat]
      omega
    · have zero : (0 : BitVec 11).toNat = 0 := rfl
      rw [bias, zero]
      omega

/-! ### The nearest double -/

/-- No number of 53 bits is nearer than a value, whatever its exponent, and from the middle the value is the even
one. -/
def Rounds (r : ℚ) (x : UnpackedFloat) : Prop :=
  ∀ n f : Int, |n| < 2 ^ 53 → -1074 ≤ f →
    |value x - r| < |n * 2 ^ f - r| ∨ (n * 2 ^ f : ℚ) = value x ∨ |value x - r| = |n * 2 ^ f - r| ∧ IsEven x

theorem rounds_roundWithAccuracy {v : ℚ} {m : Nat} {e : Int} {accuracy : Accuracy}
    (h : Lies (v / 2 ^ e) m accuracy) (wide : 52 ≤ m.log2 ∨ e ≤ -1074) (s : Sign) :
    Rounds (unit s * v) (roundWithAccuracy .binary64 s m e accuracy) := by
  intro n f bits least
  have ⟨_, _, exact, parity⟩ := roundWithAccuracy_spec wide s accuracy
  have turned : |s.apply n| < 2 ^ 53 := by cases s <;> simpa [Sign.apply] using bits
  have nearest := rounded_nearest h wide turned least
  have positive : (0 : ℚ) < 2 ^ (e + cut m e : ℤ) := by positivity
  generalize e + (cut m e : ℤ) = top at *
  have scaled (a : ℚ) : |unit s * a * 2 ^ top - unit s * v| = 2 ^ top * |a - v / 2 ^ top| := by
    rw [show unit s * a * 2 ^ top - unit s * v = unit s * (2 ^ top * (a - v / 2 ^ top)) by field_simp, abs_mul,
      abs_mul, abs_of_pos positive]
    cases s <;> simp [unit]
  have other : (n * 2 ^ f : ℚ) = unit s * (s.apply n * 2 ^ (f - top)) * 2 ^ top := by
    have exponent : (2 : ℚ) ^ f = 2 ^ (f - top) * 2 ^ top := by
      rw [← zpow_add₀ (by norm_num), sub_add_cancel]
    rw [exponent]
    cases s <;> simp [unit, Sign.apply] <;> ring
  rw [exact, other, scaled, scaled]
  rcases nearest with closer | same | ⟨middle, even⟩
  · exact Or.inl (mul_lt_mul_of_pos_left closer positive)
  · exact Or.inr (Or.inl (by rw [same]))
  · exact Or.inr (Or.inr ⟨by rw [middle], parity even⟩)

theorem Rounds.abs_le {r : ℚ} {x : UnpackedFloat} (h : Rounds r x) {n f : Int} (bits : |n| < 2 ^ 53)
    (least : -1074 ≤ f) : |value x - r| ≤ |n * 2 ^ f - r| := by
  rcases h n f bits least with closer | same | middle
  · exact le_of_lt closer
  · rw [same]
  · exact le_of_eq middle.1

/-- What rounds to a value beyond the doubles is at least half as large. -/
theorem Rounds.exponent_le {r : ℚ} {s : Sign} {m : Nat} {e : Int} {pos : 0 < m} (h : Rounds r (.finite s m e pos))
    (canonical : IsCanonical (.finite s m e pos)) (small : |r| < 2 ^ 1023) : e ≤ 971 := by
  by_contra above
  have nearest := h.abs_le (n := 0) (f := 0) (by norm_num) (by norm_num)
  have triangle := abs_sub_abs_le_abs_sub (value (.finite s m e pos)) r
  rw [Int.cast_zero, zero_mul, zero_sub, abs_neg] at nearest
  have wide : (2 ^ 52 : ℚ) ≤ m := by
    exact_mod_cast canonical.2.2.resolve_left (by omega)
  have power : (2 ^ 972 : ℚ) ≤ 2 ^ e := by
    rw [← zpow_natCast]
    exact zpow_le_zpow_right₀ (by norm_num) (by omega)
  have large : (2 ^ 1024 : ℚ) ≤ |value (.finite s m e pos)| := by
    have sign : |unit s| = 1 := by cases s <;> simp [unit]
    rw [value_finite, abs_mul, abs_mul, sign, one_mul, Nat.abs_cast, abs_of_nonneg (by positivity)]
    calc (2 ^ 1024 : ℚ)
      _ = 2 ^ 52 * 2 ^ 972 := by rw [← pow_add]
      _ ≤ m * 2 ^ e := mul_le_mul wide power (by positivity) (by positivity)
  have double : (2 ^ 1024 : ℚ) = 2 ^ 1023 + 2 ^ 1023 := by rw [← two_mul, ← pow_succ']
  generalize (2 ^ 1024 : ℚ) = top at large double
  generalize (2 ^ 1023 : ℚ) = half at small double
  linarith

theorem exists_value_eq (y : Float) (finite : Arith.isFinite y = true) :
    ∃ n f : Int, |n| < 2 ^ 53 ∧ -1074 ≤ f ∧ f ≤ 971 ∧ ratio y = n * 2 ^ f := by
  have canonical := isCanonical_toModel y
  rw [isFinite_toModel] at finite
  rw [ratio_eq]
  rcases read : y.toModel.unpack with s | _ | s | ⟨s, m, e, pos⟩
  · rw [read] at finite
    cases finite
  · rw [read] at finite
    cases finite
  · exact ⟨0, 0, by norm_num, by norm_num, by norm_num, by simp [value]⟩
  · rw [read] at canonical
    refine ⟨s.apply m, e, ?_, canonical.2.1, exponent_le_of_unpack read, rfl⟩
    have bits := canonical.1
    cases s <;> simpa [Sign.apply] using (by exact_mod_cast bits : (m : ℤ) < 2 ^ 53)

section Operation
variable {x : Float} {s : Sign} {m : Nat} {e : Int} {accuracy : Accuracy}

/-- What an operation gives is its exact result, rounded. -/
theorem unpack_of_rounds {r : ℚ}
    (read : x.toModel.unpack = unpack .binary64 (pack .binary64 (roundWithAccuracy .binary64 s m e accuracy)))
    (h : Rounds r (roundWithAccuracy .binary64 s m e accuracy)) (wide : 52 ≤ m.log2 ∨ e ≤ -1074)
    (small : |r| < 2 ^ 1023) : x.toModel.unpack.isFinite = true ∧ Rounds r x.toModel.unpack := by
  have ⟨canonical, bounded, _⟩ := roundWithAccuracy_spec wide s accuracy
  rcases there : roundWithAccuracy .binary64 s m e accuracy with t | _ | t | ⟨t, n, f, pos⟩
  · rw [there] at bounded
    cases bounded
  · rw [there] at bounded
    cases bounded
  · rw [there] at h
    rw [there, pack, unpack_packedZero] at read
    rw [read]
    exact ⟨rfl, h⟩
  · rw [there] at h canonical
    rw [there, unpack_pack_finite canonical (h.exponent_le canonical small)] at read
    rw [read]
    exact ⟨rfl, h⟩

theorem isNearest_of_rounds {r : ℚ} (h : x.toModel.unpack.isFinite = true ∧ Rounds r x.toModel.unpack) :
    IsNearest r x := by
  obtain ⟨bounded, h⟩ := h
  refine ⟨bounded, fun y other => ?_⟩
  obtain ⟨n, f, bits, least, -, exact⟩ := exists_value_eq y other
  rw [exact, ratio_eq]
  exact h n f bits least

/-- A number of 53 bits is rounded to itself. -/
theorem ratio_eq_of_rounds {n f : Int} (h : Rounds (n * 2 ^ f) x.toModel.unpack) (bits : |n| < 2 ^ 53)
    (least : -1074 ≤ f) : ratio x = n * 2 ^ f := by
  have nearest := h.abs_le bits least
  rw [sub_self, abs_zero, abs_nonpos_iff, sub_eq_zero] at nearest
  rw [ratio_eq, nearest]

end Operation

/-! ### Quotients -/

theorem lies_fraction {p q : Nat} (pos : 0 < q) : Lies (p / q) (p / q) (accuracyOfFraction (p % q) q) := by
  have filled : (0 : ℚ) < q := by exact_mod_cast pos
  have whole : (p : ℚ) = q * (p / q : ℕ) + (p % q : ℕ) := by exact_mod_cast (Nat.div_add_mod p q).symm
  have below : ((p % q : ℕ) : ℚ) < q := by exact_mod_cast Nat.mod_lt p pos
  unfold accuracyOfFraction
  generalize p / q = k at whole ⊢
  generalize p % q = rest at whole below ⊢
  split
  · rename_i zero
    rw [zero, Nat.cast_zero, add_zero] at whole
    rw [Lies, whole, mul_div_cancel_left₀ _ filled.ne']
  · rename_i above
    have positive : (0 : ℚ) < rest := by exact_mod_cast Nat.pos_of_ne_zero above
    rw [whole, add_div, mul_div_cancel_left₀ _ filled.ne']
    have fraction : (rest : ℚ) / q < 1 := (div_lt_one filled).mpr below
    have started : 0 < (rest : ℚ) / q := div_pos positive filled
    rcases Nat.lt_trichotomy (2 * rest) q with less | same | more
    · have half : (rest : ℚ) / q < 1 / 2 := by
        rw [div_lt_div_iff₀ filled two_pos]
        exact_mod_cast (by omega : rest * 2 < 1 * q)
      rw [Nat.compare_eq_lt.mpr less]
      constructor <;> linarith
    · have half : (rest : ℚ) / q = 1 / 2 := by
        rw [div_eq_div_iff filled.ne' two_ne_zero]
        exact_mod_cast (by omega : rest * 2 = 1 * q)
      rw [Nat.compare_eq_eq.mpr same, Lies, half]
    · have half : 1 / 2 < (rest : ℚ) / q := by
        rw [div_lt_div_iff₀ two_pos filled]
        exact_mod_cast (by omega : 1 * q < rest * 2)
      rw [Nat.compare_eq_gt.mpr more]
      constructor <;> linarith

theorem le_log2_quotient {m n k : Nat} (left : 0 < m) (right : 0 < n) (wide : n.log2 + 53 ≤ m.log2 + k) :
    52 ≤ (m * 2 ^ k / n).log2 := by
  have lower := Nat.mul_le_mul_right (2 ^ k) (Nat.log2_self_le (Nat.ne_of_gt left))
  have upper := Nat.mul_le_mul_left (2 ^ 52) (Nat.le_of_lt (Nat.lt_log2_self (n := n)))
  have powers := Nat.pow_le_pow_right Nat.two_pos (by omega : 52 + (n.log2 + 1) ≤ m.log2 + k)
  rw [Nat.pow_add 2 52, Nat.pow_add 2 m.log2] at powers
  have filled : 2 ^ 52 ≤ m * 2 ^ k / n := (Nat.le_div_iff_mul_le right).mpr (by omega)
  have pos : m * 2 ^ k / n ≠ 0 := by
    intro zero
    rw [zero] at filled
    norm_num at filled
  exact (Nat.le_log2 pos).mpr filled

theorem divCore_eq (m : Nat) (e : Int) (n : Nat) (f : Int) :
    ∃ (k : Nat) (g : Int), e - f = g + k ∧ (n.log2 + 53 ≤ m.log2 + k ∨ g ≤ -1074) ∧
      divCore .binary64 m e n f = (m * 2 ^ k / n, g, accuracyOfFraction (m * 2 ^ k % n) n) := by
  refine ⟨(e - f - min (e - f) (max (m.log2 + 1 + e - (n.log2 + 1 + f) - 53) (-1074))).toNat,
    min (e - f) (max (m.log2 + 1 + e - (n.log2 + 1 + f) - 53) (-1074)), by omega, by omega, ?_⟩
  rw [divCore, Nat.shiftLeft_eq]
  rfl

/-- The dividend is scaled so far that the quotient fills 53 bits, if the least exponent allows it. -/
theorem divCore_spec {m n : Nat} (left : 0 < m) (right : 0 < n) (e f : Int) :
    Lies ((m * 2 ^ e / (n * 2 ^ f)) / 2 ^ (divCore .binary64 m e n f).2.1) (divCore .binary64 m e n f).1
        (divCore .binary64 m e n f).2.2 ∧
      (52 ≤ (divCore .binary64 m e n f).1.log2 ∨ (divCore .binary64 m e n f).2.1 ≤ -1074) := by
  obtain ⟨k, g, scale, width, read⟩ := divCore_eq m e n f
  rw [read]
  constructor
  · have lies := lies_fraction (p := m * 2 ^ k) right
    have exact : (m * 2 ^ e / (n * 2 ^ f) / 2 ^ g : ℚ) = (m * 2 ^ k : ℕ) / n := by
      have exponent : (2 : ℚ) ^ e = 2 ^ k * (2 ^ f * 2 ^ g) := by
        rw [← zpow_add₀ (by norm_num), ← zpow_natCast, ← zpow_add₀ (by norm_num)]
        congr 1
        omega
      rw [exponent]
      push_cast
      field_simp
    rwa [exact]
  · exact width.imp_left (le_log2_quotient left right)

theorem rounds_zero (s : Sign) : Rounds 0 (.zero s) := by
  intro n f _ _
  by_cases zero : (n * 2 ^ f : ℚ) = 0
  · exact Or.inr (Or.inl zero)
  · left
    rw [value_zero, sub_zero, sub_zero, abs_zero]
    exact abs_pos.mpr zero

theorem unit_div (s t : Sign) : unit (s / t) = unit s / unit t := by
  cases s <;> cases t
  · show (1 : ℚ) = -1 / -1
    norm_num
  · show (-1 : ℚ) = -1 / 1
    norm_num
  · show (-1 : ℚ) = 1 / -1
    norm_num
  · show (1 : ℚ) = 1 / 1
    norm_num

/-- A quotient of numbers is rounded once. -/
theorem rounds_quotient (s t : Sign) {m n : Nat} (left : 0 < m) (right : 0 < n) (e f : Int) :
    Rounds (value (.finite s m e left) / value (.finite t n f right))
      (.div .binary64 (.finite s m e left) (.finite t n f right)) := by
  have ⟨lies, wide⟩ := divCore_spec left right e f
  have exact : value (.finite s m e left) / value (.finite t n f right) =
      unit (s / t) * (m * 2 ^ e / (n * 2 ^ f)) := by
    rw [value_finite, value_finite, unit_div]
    cases t <;> simp [unit] <;> ring
  rw [exact]
  exact rounds_roundWithAccuracy lies wide (s / t)

theorem rounds_div_finite {x : Float} {s t : Sign} {m n : Nat} {e f : Int} {left : 0 < m} {right : 0 < n}
    (read : x.toModel.unpack = unpack .binary64 (pack .binary64
      (.div .binary64 (.finite s m e left) (.finite t n f right))))
    (small : |value (.finite s m e left) / value (.finite t n f right)| < 2 ^ 1023) :
    x.toModel.unpack.isFinite = true ∧
      Rounds (value (.finite s m e left) / value (.finite t n f right)) x.toModel.unpack :=
  unpack_of_rounds read (rounds_quotient s t left right e f) (divCore_spec left right e f).2 small

theorem finite_of_ratio {x : Float} (finite : Arith.isFinite x = true) :
    (∃ s, x.toModel.unpack = .zero s) ∨ ∃ s m e pos, x.toModel.unpack = .finite s m e pos := by
  rw [isFinite_toModel] at finite
  generalize x.toModel.unpack = u at finite
  rcases u with s | _ | s | ⟨s, m, e, pos⟩
  · cases finite
  · cases finite
  · exact Or.inl ⟨s, rfl⟩
  · exact Or.inr ⟨s, m, e, pos, rfl⟩

theorem rounds_div {x y : Float} (first : Arith.isFinite x = true) (second : Arith.isFinite y = true)
    (divides : ratio y ≠ 0) (small : |ratio x / ratio y| < 2 ^ 1023) :
    (x / y).toModel.unpack.isFinite = true ∧ Rounds (ratio x / ratio y) (x / y).toModel.unpack := by
  have read := unpack_div x y
  rw [ratio_eq] at divides
  rw [ratio_eq, ratio_eq] at small ⊢
  rcases finite_of_ratio second with ⟨t, zero⟩ | ⟨t, n, f, right, divisor⟩
  · rw [zero] at divides
    exact absurd rfl divides
  rw [divisor] at read small ⊢
  rcases finite_of_ratio first with ⟨s, zero⟩ | ⟨s, m, e, left, dividend⟩
  · rw [zero, UnpackedFloat.div, pack, unpack_packedZero] at read
    rw [zero, read, value_zero, zero_div]
    exact ⟨rfl, rounds_zero _⟩
  · rw [dividend] at read small ⊢
    exact rounds_div_finite read small

/-! ### Whole numbers and decimals -/

theorem rounds_exact {m : Nat} {e : Int} (wide : 52 ≤ m.log2 ∨ e ≤ -1074) (s : Sign) :
    Rounds (unit s * (m * 2 ^ e)) (roundWithAccuracy .binary64 s m e .exact) := by
  refine rounds_roundWithAccuracy ?_ wide s
  rw [Lies, mul_div_cancel_right₀]
  positivity

theorem le_log2_mul_pow {m k : Nat} (pos : 0 < m) (wide : 52 ≤ m.log2 + k) : 52 ≤ (m * 2 ^ k).log2 := by
  have lower := Nat.mul_le_mul_right (2 ^ k) (Nat.log2_self_le (Nat.ne_of_gt pos))
  have powers := Nat.pow_le_pow_right Nat.two_pos wide
  rw [Nat.pow_add 2 m.log2] at powers
  exact (Nat.le_log2 (Nat.ne_of_gt (Nat.mul_pos pos (Nat.two_pow_pos k)))).mpr (Nat.le_trans powers lower)

theorem abs_natCast_lt {n k : Nat} (small : n < 2 ^ k) (le : k ≤ 1023) : |(n : ℚ)| < 2 ^ 1023 := by
  rw [Nat.abs_cast]
  calc (n : ℚ)
    _ < 2 ^ k := by exact_mod_cast small
    _ ≤ 2 ^ 1023 := pow_le_pow_right₀ (by norm_num) le

/-- A whole number of 53 bits is a double. -/
theorem ratio_toFloat {n : UInt64} (short : n.toNat < 2 ^ 53) : ratio n.toFloat = n.toNat := by
  have read := unpack_toFloat n
  unfold UnpackedFloat.normalize at read
  rcases Nat.eq_zero_or_pos n.toNat with zero | pos
  · rw [zero] at read ⊢
    rw [ratio_eq, read]
    rfl
  rw [Int.compare_eq_gt.mpr (by omega)] at read
  dsimp only at read
  unfold UnpackedFloat.round decreaseExponent at read
  dsimp only at read
  rw [Int.toNat_natCast, Nat.shiftLeft_eq] at read
  have width : 52 ≤ n.toNat.log2 + (0 - Format.binary64.targetExponent (totalExponent n.toNat 0)).toNat := by
    simp only [Format.targetExponent, totalExponent, Format.mantissaBits, Format.minExponent]
    omega
  generalize (0 - Format.binary64.targetExponent (totalExponent n.toNat 0)).toNat = shift at read width
  have wide : 52 ≤ (n.toNat * 2 ^ shift).log2 ∨ (0 - shift : Int) ≤ -1074 := Or.inl (le_log2_mul_pow pos width)
  have exact : unit .positive * ((n.toNat * 2 ^ shift : ℕ) * 2 ^ (0 - shift : Int)) =
      ((n.toNat : Int) * 2 ^ (0 : Int) : ℚ) := by
    rw [zero_sub, zpow_neg, zpow_natCast]
    push_cast
    field_simp
    simp [unit]
  have rounds := rounds_exact wide .positive
  rw [exact] at rounds
  have ⟨_, kept⟩ := unpack_of_rounds read rounds wide (by simpa using abs_natCast_lt short (by norm_num))
  simpa using ratio_eq_of_rounds kept (by simpa using short) (by norm_num)

theorem rounds_mul_one {x : Float} (finite : Arith.isFinite x = true) (small : |ratio x| < 2 ^ 1023) :
    (x * Float.ofBits 0x3FF0000000000000).toModel.unpack.isFinite = true ∧
      Rounds (ratio x) (x * Float.ofBits 0x3FF0000000000000).toModel.unpack := by
  have read := unpack_mul x (Float.ofBits 0x3FF0000000000000)
  rw [unpack_one] at read
  rw [ratio_eq] at small ⊢
  rcases finite_of_ratio finite with ⟨s, zero⟩ | ⟨s, m, e, pos, factor⟩
  · rw [zero, UnpackedFloat.mul, pack, unpack_packedZero] at read
    rw [zero, read]
    exact ⟨rfl, rounds_zero _⟩
  · rw [factor] at read small ⊢
    have wide : 52 ≤ (m * 2 ^ 52).log2 ∨ e + -52 ≤ -1074 := Or.inl (le_log2_mul_pow pos (by omega))
    have exact : unit (s * .positive) * ((m * 2 ^ 52 : ℕ) * 2 ^ (e + -52)) = value (.finite s m e pos) := by
      have sign : s * .positive = s := by cases s <;> rfl
      rw [sign, value_finite, zpow_add₀ (by norm_num)]
      push_cast
      norm_num
      ring
    have rounds := rounds_exact wide (s * .positive)
    rw [exact] at rounds
    exact unpack_of_rounds read rounds wide small

theorem powers_of_ten : ∀ k : Fin 23,
    Arith.isFinite (Float.exactlyRepresentablePowersOfTen[k]) = true ∧
      (toQuotient Float.exactlyRepresentablePowersOfTen[k]).1 =
        10 ^ k.val * (toQuotient Float.exactlyRepresentablePowersOfTen[k]).2 := by
  decide +kernel

theorem quotient_pos (x : Float) : 0 < (toQuotient x).2 := by
  unfold toQuotient
  split
  · exact Nat.pow_pos Nat.two_pos
  · exact Nat.one_pos

theorem ratio_eq_iff {x : Float} {n : Int} : ratio x = n ↔ (toQuotient x).1 = n * (toQuotient x).2 := by
  have pos : ((toQuotient x).2 : ℚ) ≠ 0 := by exact_mod_cast (quotient_pos x).ne'
  rw [ratio, div_eq_iff pos]
  exact_mod_cast Iff.rfl

theorem toNat_toUInt64 {n : Nat} (short : n < 2 ^ 53) : n.toUInt64.toNat = n := by
  apply UInt64.toNat_ofNat_of_lt
  show n < 2 ^ 64
  omega

/-- A whole number is read as the nearest double. -/
theorem isNearest_ofNat {n : Nat} (small : |(n : ℚ)| < 2 ^ 1023) : IsNearest n (Float.ofNat n) := by
  rcases ofNat_cases n with ⟨short, read⟩ | ⟨pos, read⟩
  · have exact := ratio_toFloat (n := n.toUInt64) (by rwa [toNat_toUInt64 short])
    rw [toNat_toUInt64 short] at exact
    rw [← exact] at small
    have product := rounds_mul_one (isFinite_toFloat _) small
    rw [← read, exact] at product
    exact isNearest_of_rounds product
  · have wide : 52 ≤ (n * 2 ^ 53).log2 ∨ (-53 : Int) ≤ -1074 := Or.inl (le_log2_mul_pow pos (by omega))
    have exact : unit .positive * ((n * 2 ^ 53 : ℕ) * 2 ^ (-53 : Int)) = (n : ℚ) := by
      rw [unit, one_mul, zpow_neg]
      push_cast
      exact mul_inv_cancel_right₀ (by norm_num) _
    have rounds := rounds_exact wide .positive
    rw [exact] at rounds
    exact isNearest_of_rounds (unpack_of_rounds read rounds wide small)

/-- How a decimal becomes a double: by one division, of doubles if both are short. -/
theorem ofScientific_cases {m k : Nat} (fraction : 0 < k) (shallow : k ≤ 2048) :
    (∃ j : Fin 23, j.val = k ∧ m < 2 ^ 53 ∧
      Float.ofScientific m true k = m.toUInt64.toFloat / Float.exactlyRepresentablePowersOfTen[j]) ∨
    (m = 0 ∧ (Float.ofScientific m true k).toModel.unpack = .zero .positive) ∨
    ∃ (left : 0 < m) (right : 0 < 10 ^ k), (Float.ofScientific m true k).toModel.unpack =
      unpack .binary64 (pack .binary64
        (.div .binary64 (.finite .positive m 0 left) (.finite .positive (10 ^ k) 0 right))) := by
  unfold Float.ofScientific
  dsimp only
  by_cases short : m < 2 ^ 53 ∧ k ≤ 22
  · rw [dif_pos short, if_pos rfl]
    exact Or.inl ⟨⟨k, by omega⟩, rfl, short.1, rfl⟩
  · right
    rw [dif_neg short, if_pos rfl]
    show (_ ∧ unpack .binary64 (pack .binary64 (ofScientific .binary64 m (Int.negOfNat k))) = _) ∨
      ∃ left right, unpack .binary64 (pack .binary64 (ofScientific .binary64 m (Int.negOfNat k))) = _
    unfold ofScientific
    rcases Nat.eq_zero_or_pos m with zero | pos
    · rw [dif_pos zero, pack, unpack_packedZero]
      exact Or.inl ⟨zero, rfl⟩
    have exponent : Int.negOfNat k = -k := Int.negOfNat_eq
    have power : ¬(-k : Int) > 2 ^ Format.binary64.exponentBits := by
      have bits : (0 : Int) < 2 ^ Format.binary64.exponentBits := by decide
      omega
    have deep : ¬(-k : Int) < -(2 ^ Format.binary64.exponentBits + (m.log2 : Int)) := by
      have bits : (2 : Int) ^ Format.binary64.exponentBits = 2048 := by decide
      omega
    right
    refine ⟨pos, Nat.pow_pos (by decide), ?_⟩
    rw [dif_neg (Nat.ne_of_gt pos), exponent, if_neg power, if_neg deep, if_neg (by omega)]
    simp only [neg_neg, Int.toNat_natCast]

/-- A decimal is read as the nearest double. -/
theorem isNearest_ofScientific {m k : Nat} (fraction : 0 < k) (shallow : k ≤ 2048)
    (small : |(m / 10 ^ k : ℚ)| < 2 ^ 1023) : IsNearest (m / 10 ^ k) (Float.ofScientific m true k) := by
  rcases ofScientific_cases (m := m) fraction shallow with ⟨j, rfl, short, read⟩ | ⟨rfl, read⟩ | ⟨left, right, read⟩
  · have ⟨bounded, power⟩ := powers_of_ten j
    have divisor := ratio_eq_iff.mpr power
    have exact := ratio_toFloat (n := m.toUInt64) (by rwa [toNat_toUInt64 short])
    rw [toNat_toUInt64 short] at exact
    push_cast at divisor
    rw [← exact, ← divisor] at small ⊢
    rw [read]
    have filled : ratio Float.exactlyRepresentablePowersOfTen[j] ≠ 0 := by
      rw [divisor]
      positivity
    exact isNearest_of_rounds (rounds_div (isFinite_toFloat _) bounded filled small)
  · apply isNearest_of_rounds
    rw [read, Nat.cast_zero, zero_div]
    exact ⟨rfl, rounds_zero _⟩
  · have exact : value (.finite .positive m 0 left) / value (.finite .positive (10 ^ k) 0 right) =
        (m / 10 ^ k : ℚ) := by
      rw [value_finite, value_finite]
      simp [unit]
    rw [← exact] at small ⊢
    exact isNearest_of_rounds (rounds_div_finite read small)

/-! ### Whole quotients -/

theorem unpack_nearest {p q : Int} (proper : q ≠ 1) (left : 0 < p.natAbs) (right : 0 < q.natAbs) :
    (nearest p q).toModel.unpack = unpack .binary64 (pack .binary64 (.div .binary64
      (.finite (if (p < 0) = (q < 0) then .positive else .negative) p.natAbs 0 left)
      (.finite .positive q.natAbs 0 right))) := by
  unfold nearest
  rw [if_neg proper, if_neg (by omega), dif_pos left, dif_pos right]
  rfl

/-- A quotient that is a whole number of 53 bits is exact. -/
theorem ratio_nearest {q t : Int} (proper : 1 < q) (nonzero : t ≠ 0) (short : |t| < 2 ^ 53) :
    ratio (nearest (t * q) q) = t := by
  have left : 0 < (t * q).natAbs := Int.natAbs_pos.mpr (mul_ne_zero nonzero (by omega))
  have right : 0 < q.natAbs := by omega
  have read := unpack_nearest (by omega) left right
  have exact : value (.finite (if (t * q < 0) = (q < 0) then .positive else .negative) (t * q).natAbs 0 left) /
      value (.finite .positive q.natAbs 0 right) = (t * 2 ^ (0 : Int) : ℚ) := by
    have positive : (q : ℚ) ≠ 0 := by exact_mod_cast (by omega : q ≠ 0)
    have notBelow : ¬q < 0 := by omega
    have divisor : (q.natAbs : ℚ) = q := by rw [Nat.cast_natAbs, abs_of_pos (by omega)]
    rw [value_finite, value_finite, divisor]
    rcases lt_or_gt_of_ne nonzero with below | above
    · have sign : t * q < 0 := mul_neg_of_neg_of_pos below (by omega)
      have dividend : ((t * q).natAbs : ℚ) = -(t * q) := by
        rw [Nat.cast_natAbs, abs_of_neg sign]
        push_cast
        rfl
      simp [sign, notBelow, unit, dividend, positive]
    · have sign : 0 < t * q := mul_pos above (by omega)
      have dividend : ((t * q).natAbs : ℚ) = t * q := by
        rw [Nat.cast_natAbs, abs_of_pos sign]
        push_cast
        rfl
      simp [sign.not_gt, notBelow, unit, dividend, positive]
  have small : |(t * 2 ^ (0 : Int) : ℚ)| < 2 ^ 1023 := by
    have width : ((|t| : ℤ) : ℚ) < 2 ^ 53 := by exact_mod_cast short
    rw [zpow_zero, mul_one, ← Int.cast_abs]
    calc ((|t| : ℤ) : ℚ)
      _ < 2 ^ 53 := width
      _ ≤ 2 ^ 1023 := pow_le_pow_right₀ (by norm_num) (by norm_num)
  have quotient := rounds_div_finite read (by rw [exact]; exact small)
  rw [exact] at quotient
  have kept := ratio_eq_of_rounds quotient.2 short (by norm_num)
  rwa [zpow_zero, mul_one] at kept

/-- Cutting the fraction off leaves a whole number as it is. -/
theorem trunc_of_ratio {x : Float} {t : Int} (h : ratio x = t) : trunc x = t := by
  rw [ratio_eq_iff] at h
  have pos := quotient_pos x
  show (toQuotient x).1.tdiv (toQuotient x).2 = t
  rw [h]
  exact Int.mul_tdiv_cancel t (by omega)

end ChartOverlay.Double
