import ChartOverlay.Proofs.Averages

/-!
# Bands

The bands of a bar stand at a multiple of the standard deviation above and below the average of its window. Average
and deviation are calculated apart, but over the same window; exactly, the square of the deviation is what the squares
of the values exceed that of their average by (`deviation_sq`), and it vanishes only where all values are the same
(`comoment_self_eq_zero_iff`). So the bands enclose the average, widen with the multiple and meet only for a multiple
of zero or a window of one value: `bollinger_geometry`.
-/

namespace ChartOverlay

open Arith

namespace Exact

variable {α : Type} [Exact α]

/-! ### Deviations -/

section Deviations
variable {window : List α} {n : Int}

theorem comoment_self_eq (filled : (window.length : α) ≠ 0) :
    comoment window window = (window.map (· ^ 2)).sum - window.length * average window ^ 2 := by
  rw [comoment_eq rfl filled, List.zipWith_self, average]
  simp only [← sq]
  field_simp

theorem comoment_self_eq_zero_iff : comoment window window = 0 ↔ IsFlat window := by
  constructor
  · intro none x first y second
    by_contra apart
    exact (comoment_pos first second apart).ne' none
  · intro flat
    rw [comoment_self]
    refine List.sum_eq_zero fun square member => ?_
    obtain ⟨x, inside, rfl⟩ := List.mem_map.mp member
    have level : average window = x :=
      (isBetween_average (List.ne_nil_of_mem inside)).eq_of_constant fun y other => flat y other x inside
    rw [level, sub_self, zero_pow two_ne_zero]

theorem deviation_eq_sqrt (n : Int) (window : List α) : deviation n window = sqrt (comoment window window / n) := by
  rw [deviation, comoment_self]
  simp only [sum_eq, mean_eq, ofInt_eq, sq, average]

variable (roots : HasRoots α)
include roots

theorem deviation_nonneg (n : Int) (window : List α) : 0 ≤ deviation n window := by
  rw [deviation_eq_sqrt]
  exact roots.nonneg _

theorem deviation_sq (valid : 1 ≤ n) (window : List α) : n * deviation n window ^ 2 = comoment window window := by
  have count : (0 : α) < n := by exact_mod_cast valid
  rw [deviation_eq_sqrt, sq, roots.square (div_nonneg (comoment_self_nonneg window) count.le),
    mul_div_cancel₀ _ count.ne']

theorem deviation_eq_zero_iff (valid : 1 ≤ n) : deviation n window = 0 ↔ IsFlat window := by
  have count : (n : α) ≠ 0 := by exact_mod_cast (by omega : n ≠ 0)
  rw [← comoment_self_eq_zero_iff, ← deviation_sq roots valid, mul_eq_zero_iff_left count, sq_eq_zero_iff]

end Deviations

/-! ### Three lines -/

/-- The bands of a window whose values deviate by `sd`, at `width` times that from the line in the middle. -/
structure AreBands (window : List α) (width sd upper middle lower : α) : Prop where
  below : lower ≤ middle
  above : middle ≤ upper
  up : upper - middle = width * sd
  down : middle - lower = width * sd
  closed : upper = lower ↔ width = 0 ∨ IsFlat window

theorem areBands_of_deviation {window : List α} {width sd : α} (nonneg : 0 ≤ width) (deviates : 0 ≤ sd)
    (flat : sd = 0 ↔ IsFlat window) (middle : α) :
    AreBands window width sd (middle + sd * width) middle (middle - sd * width) := by
  have reach : 0 ≤ sd * width := mul_nonneg deviates nonneg
  refine ⟨by linarith, by linarith, by ring, by ring, ?_⟩
  rw [← flat, ← mul_eq_zero, mul_comm width]
  constructor
  · intro meet
    linarith
  · intro none
    rw [none, add_zero, sub_zero]

/-- The values of the three lines at a bar. -/
structure BandsAt (bands : Bands α) (i : Nat) (upper middle lower : α) : Prop where
  upper : bands.upper[i]? = some (some upper)
  middle : bands.middle[i]? = some (some middle)
  lower : bands.lower[i]? = some (some lower)

section Lines
variable {values : List α} {period : Int} {i : Nat}

theorem getElem?_stdev (valid : 1 ≤ period) (inside : i < values.length) : (stdev values period)[i]? =
    some (if period.toNat - 1 ≤ i then some (deviation period (trailing period.toNat values i)) else none) :=
  getElem?_rolling_some valid (deviation period) inside

theorem length_band (f : α → α → α) (values : List α) (period : Int) :
    (zipDefined f (sma values period) (stdev values period)).length = values.length := by
  rw [zipDefined, List.length_zipWith, sma, stdev, length_rolling, length_rolling, Nat.min_self]

theorem getElem?_band (valid : 1 ≤ period) (f : α → α → α) (inside : i < values.length) :
    (zipDefined f (sma values period) (stdev values period))[i]? =
      some (if period.toNat - 1 ≤ i then
        some (f (average (trailing period.toNat values i)) (deviation period (trailing period.toNat values i)))
      else none) := by
  rw [zipDefined, List.getElem?_zipWith, getElem?_sma valid inside, getElem?_stdev valid inside]
  by_cases whole : period.toNat - 1 ≤ i
  · simp only [whole, if_true, Option.bind_some, Option.map_some]
  · simp only [whole, if_false, Option.bind_none]

theorem isBlock_band (valid : 1 ≤ period) (f : α → α → α) (values : List α) :
    IsBlock (period.toNat - 1) values.length (zipDefined f (sma values period) (stdev values period)) := by
  rw [← length_band f values period]
  apply isBlock_of_entries
  intro i inside
  rw [length_band] at inside
  exact getElem?_band valid f inside

theorem bandsAt_bollinger (valid : 1 ≤ period) (whole : period ≤ i + 1) (inside : i < values.length) (width : α) :
    let middle := average (trailing period.toNat values i)
    let reach := deviation period (trailing period.toNat values i) * width
    BandsAt (bollinger values period width) i (middle + reach) middle (middle - reach) := by
  have first : period.toNat - 1 ≤ i := by omega
  constructor
  · rw [bollinger, getElem?_band valid _ inside, if_pos first]
  · rw [bollinger, getElem?_sma valid inside, if_pos first]
  · rw [bollinger, getElem?_band valid _ inside, if_pos first]

omit [Exact α] in
theorem BandsAt.unique {bands : Bands α} {upper middle lower upper' middle' lower' : α}
    (h : BandsAt bands i upper middle lower) (h' : BandsAt bands i upper' middle' lower') :
    upper = upper' ∧ middle = middle' ∧ lower = lower' :=
  ⟨Option.some.inj (Option.some.inj (h.upper.symm.trans h'.upper)),
    Option.some.inj (Option.some.inj (h.middle.symm.trans h'.middle)),
    Option.some.inj (Option.some.inj (h.lower.symm.trans h'.lower))⟩

end Lines

end Exact

open Exact

/-- Exactly calculated and with exact roots, the three lines are defined at the same bars, those with a whole window.
There the outer lines stand at the same distance from the average, a multiple of the standard deviation; the wider
multiple encloses the narrower one, and the lines meet only for the multiple zero or over values that are all the
same. -/
theorem bollinger_geometry {α : Type} [Exact α] (roots : HasRoots α) {period : Int} (valid : 1 ≤ period)
    (values : List α) :
    (∀ width : α, IsBlock (period.toNat - 1) values.length (bollinger values period width).upper ∧
      IsBlock (period.toNat - 1) values.length (bollinger values period width).middle ∧
      IsBlock (period.toNat - 1) values.length (bollinger values period width).lower) ∧
    ∀ i : Nat, period ≤ i + 1 → i < values.length → ∃ middle sd,
      middle = (trailing period.toNat values i).sum / period ∧ 0 ≤ sd ∧
      period * sd ^ 2 = ((trailing period.toNat values i).map (· ^ 2)).sum - period * middle ^ 2 ∧
      (∀ width, 0 ≤ width → ∃ upper lower, BandsAt (bollinger values period width) i upper middle lower ∧
        AreBands (trailing period.toNat values i) width sd upper middle lower) ∧
      ∀ width wider upper lower upper' lower', width ≤ wider →
        BandsAt (bollinger values period width) i upper middle lower →
        BandsAt (bollinger values period wider) i upper' middle lower' → upper ≤ upper' ∧ lower' ≤ lower := by
  constructor
  · intro width
    exact ⟨isBlock_band valid _ values, (isAverage_sma valid values).block, isBlock_band valid _ values⟩
  · intro i whole inside
    have size : ((trailing period.toNat values i).length : α) = period := by
      rw [length_trailing (by omega) inside, ← Int.cast_natCast, Int.toNat_of_nonneg (by omega)]
    have filled : ((trailing period.toNat values i).length : α) ≠ 0 := by
      rw [size]
      exact_mod_cast (by omega : period ≠ 0)
    have deviates := deviation_nonneg roots period (trailing period.toNat values i)
    have bands (width : α) := bandsAt_bollinger valid whole inside width
    refine ⟨_, deviation period (trailing period.toNat values i), average_trailing valid whole inside, deviates,
      ?_, ?_, ?_⟩
    · rw [deviation_sq roots valid, comoment_self_eq filled, size]
    · intro width nonneg
      exact ⟨_, _, bands width,
        areBands_of_deviation nonneg deviates (deviation_eq_zero_iff roots valid) _⟩
    · intro width wider upper lower upper' lower' le narrow wide
      obtain ⟨rfl, -, rfl⟩ := narrow.unique (bands width)
      obtain ⟨rfl, -, rfl⟩ := wide.unique (bands wider)
      have reach := mul_le_mul_of_nonneg_left le deviates
      exact ⟨add_le_add_right reach _, sub_le_sub_left reach _⟩

/-- Five values, the last three of which are the same: the bands meet there and not before. -/
theorem bollinger_geometry_of_plateau : HasRoots ℝ ∧ (1 : Int) ≤ 3 ∧ (0 : ℝ) ≤ 2 ∧
    (∃ upper middle lower, BandsAt (bollinger ([9, 2, 5, 5, 5] : List ℝ) 3 2) 3 upper middle lower ∧ upper ≠ lower) ∧
    ∃ upper middle, BandsAt (bollinger ([9, 2, 5, 5, 5] : List ℝ) 3 2) 4 upper middle upper := by
  have valid : (1 : Int) ≤ 3 := by decide
  have nonneg : (0 : ℝ) ≤ 2 := by norm_num
  obtain ⟨-, bars⟩ := bollinger_geometry hasRoots_real valid ([9, 2, 5, 5, 5] : List ℝ)
  refine ⟨hasRoots_real, valid, nonneg, ?_, ?_⟩
  · obtain ⟨middle, sd, -, -, -, bands, -⟩ := bars 3 (by decide) (by decide)
    obtain ⟨upper, lower, lines, law⟩ := bands 2 nonneg
    have varied : ¬IsFlat (trailing 3 ([9, 2, 5, 5, 5] : List ℝ) 3) := by
      intro flat
      have same : (2 : ℝ) = 5 := flat 2 (by simp [trailing]) 5 (by simp [trailing])
      norm_num at same
    exact ⟨upper, middle, lower, lines, law.closed.not.mpr (not_or.mpr ⟨two_ne_zero, varied⟩)⟩
  · obtain ⟨middle, sd, -, -, -, bands, -⟩ := bars 4 (by decide) (by decide)
    obtain ⟨upper, lower, lines, law⟩ := bands 2 nonneg
    have flat : IsFlat (trailing 3 ([9, 2, 5, 5, 5] : List ℝ) 4) := by
      intro x first y second
      have five {z : ℝ} (member : z ∈ trailing 3 ([9, 2, 5, 5, 5] : List ℝ) 4) : z = 5 := by
        simpa [trailing] using member
      rw [five first, five second]
    obtain rfl := law.closed.mpr (Or.inr flat)
    exact ⟨upper, middle, lines⟩

end ChartOverlay
