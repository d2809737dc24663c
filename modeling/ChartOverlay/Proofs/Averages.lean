import Mathlib
import ChartOverlay.Proofs.LeastSquares
import ChartOverlay.Proofs.Mirror
import ChartOverlay.Proofs.PriceRange
import ChartOverlay.Proofs.SignalLine

/-!
# Averages

Calculated exactly, a plain average is the sum of its window over the number of bars, in whatever order the sum is
formed, and an exponential one mixes a mean of the first values with one value after the other (`seeded`). A mean, a
mixture and a mean under weights above zero keep to every bound of the values they are made of (`IsBetween`), hence
every average lies within the range of its values: `averages_within`.
-/

namespace ChartOverlay

open Arith

namespace Exact

variable {α : Type} [Exact α]

/-! ### Between values -/

/-- A value that keeps to every bound of the values of a window. -/
def IsBetween (window : List α) (y : α) : Prop := ∀ lo hi, (∀ x ∈ window, lo ≤ x ∧ x ≤ hi) → lo ≤ y ∧ y ≤ hi

section Between
variable {window more : List α} {x y k : α}

theorem isBetween_of_mem (member : x ∈ window) : IsBetween window x := fun _ _ bounds => bounds x member

theorem IsBetween.mono (h : IsBetween window y) (within : ∀ x ∈ window, x ∈ more) : IsBetween more y :=
  fun lo hi bounds => h lo hi fun x member => bounds x (within x member)

theorem IsBetween.eq_of_constant (h : IsBetween window y) {c : α} (constant : ∀ x ∈ window, x = c) : y = c := by
  obtain ⟨above, below⟩ := h c c fun x member => ⟨(constant x member).ge, (constant x member).le⟩
  exact le_antisymm below above

theorem IsBetween.filled (h : IsBetween window y) : window ≠ [] := by
  rintro rfl
  -- an empty window has every bound
  exact absurd (h (y + 1) y nofun).1 (not_le.mpr (lt_add_one y))

theorem exists_isRange_of_filled (filled : window ≠ []) : ∃ lo hi, IsRange window lo hi := by
  have some : window.toFinset.Nonempty := (List.toFinset_nonempty_iff window).mpr filled
  have least := window.toFinset.isLeast_min' some
  have greatest := window.toFinset.isGreatest_max' some
  rw [List.coe_toFinset] at least greatest
  exact ⟨_, _, least, greatest⟩

theorem IsBetween.exists_isRange (h : IsBetween window y) : ∃ lo hi, IsRange window lo hi ∧ lo ≤ y ∧ y ≤ hi := by
  obtain ⟨lo, hi, range⟩ := exists_isRange_of_filled h.filled
  exact ⟨lo, hi, range, h lo hi fun x member => ⟨range.least.2 member, range.greatest.2 member⟩⟩

theorem isBetween_average (filled : window ≠ []) : IsBetween window (average window) := by
  intro lo hi bounds
  have count : (0 : α) < window.length := Nat.cast_pos.mpr (List.length_pos_iff.mpr filled)
  have least := List.card_nsmul_le_sum window lo fun x member => (bounds x member).1
  have greatest := List.sum_le_card_nsmul window hi fun x member => (bounds x member).2
  rw [nsmul_eq_mul] at least greatest
  rw [average, le_div_iff₀ count, div_le_iff₀ count, mul_comm lo, mul_comm hi]
  exact ⟨least, greatest⟩

/-- A share `k` of a value and the rest of the last average. -/
def blend (k last x : α) : α := x * k + last * (1 - k)

theorem IsBetween.blend (last : IsBetween window y) (value : IsBetween window x) (nonneg : 0 ≤ k) (most : k ≤ 1) :
    IsBetween window (blend k y x) := by
  intro lo hi bounds
  obtain ⟨lower, upper⟩ := last lo hi bounds
  obtain ⟨lower', upper'⟩ := value lo hi bounds
  have rest : 0 ≤ 1 - k := sub_nonneg.mpr most
  constructor
  · calc lo = lo * k + lo * (1 - k) := by ring
      _ ≤ x * k + y * (1 - k) := by gcongr
  · calc x * k + y * (1 - k) ≤ hi * k + hi * (1 - k) := by gcongr
      _ = hi := by ring

theorem IsBetween.foldl {values : List α} (seed : IsBetween window y) (nonneg : 0 ≤ k) (most : k ≤ 1)
    (within : ∀ x ∈ values, x ∈ window) : IsBetween window (values.foldl (Exact.blend k) y) := by
  induction values generalizing y with
  | nil => exact seed
  | cons x values ih =>
    obtain ⟨here, later⟩ := List.forall_mem_cons.mp within
    exact ih (seed.blend (isBetween_of_mem here) nonneg most) later

end Between

/-! ### Weighted values -/

section Weighted
variable {weights values : List α}

/-- Under weights above zero a weighted sum keeps to the bounds of the values, each times all weights. -/
theorem weighted_sum_bounds (positive : ∀ w ∈ weights, 0 < w) (enough : weights.length ≤ values.length) {lo hi : α}
    (bounds : ∀ x ∈ values.take weights.length, lo ≤ x ∧ x ≤ hi) :
    lo * weights.sum ≤ (List.zipWith (fun x w => x * w) values weights).sum ∧
      (List.zipWith (fun x w => x * w) values weights).sum ≤ hi * weights.sum := by
  induction weights generalizing values with
  | nil => simp
  | cons w weights ih =>
    cases values with
    | nil => cases enough
    | cons x values =>
      obtain ⟨weight, others⟩ := List.forall_mem_cons.mp positive
      rw [List.length_cons, List.take_succ_cons] at bounds
      obtain ⟨⟨above, below⟩, rest⟩ := List.forall_mem_cons.mp bounds
      obtain ⟨lower, upper⟩ := ih others (Nat.le_of_succ_le_succ enough) rest
      rw [List.zipWith_cons_cons, List.sum_cons, List.sum_cons, mul_add, mul_add]
      exact ⟨add_le_add (mul_le_mul_of_nonneg_right above weight.le) lower,
        add_le_add (mul_le_mul_of_nonneg_right below weight.le) upper⟩

theorem isBetween_weightedMean (positive : ∀ w ∈ weights, 0 < w) (weighted : weights ≠ []) (filled : values ≠ []) :
    IsBetween (values.take weights.length) (weightedMean weights values) := by
  intro lo hi bounds
  have used : ∀ w ∈ weights.take values.length, 0 < w := fun w member => positive w (List.mem_of_mem_take member)
  have some : weights.take values.length ≠ [] := by
    rw [ne_eq, List.take_eq_nil_iff, List.length_eq_zero_iff]
    exact not_or.mpr ⟨filled, weighted⟩
  have norm : 0 < (weights.take values.length).sum := List.sum_pos _ used some
  have enough : (weights.take values.length).length ≤ values.length := List.length_take_le _ _
  obtain ⟨lower, upper⟩ := weighted_sum_bounds used enough fun x member =>
    bounds x (List.take_subset_take_left _ (List.length_take_le' _ _) member)
  have apart : ¬isZero (weights.take values.length).sum = true := fun zero => norm.ne' (isZero_iff.mp zero)
  unfold weightedMean
  dsimp only
  rw [total_eq, total_eq, if_neg apart, le_div_iff₀ norm, div_le_iff₀ norm]
  exact ⟨lower, upper⟩

end Weighted

/-! ### Windows -/

section Windows
variable {β γ : Type} {values : List β} {n i : Nat} {x x' : β}

theorem getElem?_rolling_some {period : Int} (valid : 1 ≤ period) (f : List β → γ) (inside : i < values.length) :
    (rolling period (fun window => some (f window)) values)[i]? =
      some (if period.toNat - 1 ≤ i then some (f (trailing period.toNat values i)) else none) := by
  have whole : (1 ≤ period ∧ period ≤ i + 1) ↔ period.toNat - 1 ≤ i := by omega
  rw [getElem?_rolling _ inside]
  simp only [whole]

/-- From one bar to the next a window loses its oldest value and gains a new one. -/
theorem trailing_succ (valid : 1 ≤ n) (whole : n ≤ i + 1) (new : values[i + 1]? = some x)
    (old : values[i + 1 - n]? = some x') :
    ∃ middle, trailing n values i = x' :: middle ∧ trailing n values (i + 1) = middle ++ [x] := by
  have inside : i + 1 < values.length := (List.getElem?_eq_some_iff.mp new).1
  have early : i + 1 - n < (values.take (i + 1)).length := by
    rw [List.length_take]
    omega
  have oldest : (values.take (i + 1))[i + 1 - n] = x' := by
    rw [List.getElem_take]
    exact (List.getElem?_eq_some_iff.mp old).2
  have next : i + 1 + 1 - n = i + 1 - n + 1 := by omega
  refine ⟨(values.take (i + 1)).drop (i + 1 - n + 1), ?_, ?_⟩
  · rw [trailing, List.drop_eq_getElem_cons early, oldest]
  · rw [trailing, List.take_add_one, new, Option.toList_some, next, List.drop_append_of_le_length early]

end Windows

/-! ### Plain averages -/

section Plain
variable {values : List α} {period : Int} {i : Nat}

theorem getElem?_sma (valid : 1 ≤ period) (inside : i < values.length) : (sma values period)[i]? =
    some (if period.toNat - 1 ≤ i then some (average (trailing period.toNat values i)) else none) := by
  have means : (fun window : List α => defined (mean window)) = fun window => some (average window) := by
    funext window
    rw [mean_eq]
    rfl
  rw [sma, means, getElem?_rolling_some valid _ inside]

theorem length_sma (values : List α) (period : Int) : (sma values period).length = values.length :=
  length_rolling _ _ _

theorem average_trailing (valid : 1 ≤ period) (whole : period ≤ i + 1) (inside : i < values.length) :
    average (trailing period.toNat values i) = (trailing period.toNat values i).sum / period := by
  rw [average, length_trailing (by omega) inside, ← Int.cast_natCast, Int.toNat_of_nonneg (by omega)]

theorem sum_trailing {n : Nat} (whole : n ≤ i + 1) (inside : i < values.length) :
    (trailing n values i).sum = ∑ k ∈ Finset.Ico (i + 1 - n) (i + 1), values.getD k 0 := by
  have entries {m : Nat} (part : m ≤ i + 1) : ∀ k < m, values[k]? = some (values.getD k 0) := by
    intro k early
    rw [List.getElem?_eq_getElem (by omega), List.getD_eq_getElem _ _ (by omega)]
  have early : (values.take (i + 1)).take (i + 1 - n) = values.take (i + 1 - n) := by
    rw [List.take_take, Nat.min_eq_left (by omega)]
  have split := List.sum_take_add_sum_drop (values.take (i + 1)) (i + 1 - n)
  rw [early, sum_take (entries (Nat.sub_le _ _)), sum_take (entries (Nat.le_refl _))] at split
  rw [trailing, Finset.sum_Ico_eq_sub _ (Nat.sub_le _ _), ← split, add_sub_cancel_left]

theorem getElem?_sma_of_whole (valid : 1 ≤ period) (whole : period ≤ i + 1) (inside : i < values.length) :
    (sma values period)[i]? = some (some ((trailing period.toNat values i).sum / period)) := by
  rw [getElem?_sma valid inside, if_pos (by omega), average_trailing valid whole inside]

theorem sma_succ (valid : 1 ≤ period) {x x' y : α} (here : (sma values period)[i]? = some (some y))
    (new : values[i + 1]? = some x) (old : values[i + 1 - period.toNat]? = some x') :
    (sma values period)[i + 1]? = some (some (y + (x - x') / period)) := by
  have inside : i + 1 < values.length := (List.getElem?_eq_some_iff.mp new).1
  by_cases whole : period ≤ i + 1
  · obtain ⟨middle, last, next⟩ := trailing_succ (by omega) (by omega) new old
    rw [getElem?_sma_of_whole valid whole (by omega), last, List.sum_cons] at here
    rw [getElem?_sma_of_whole valid (by omega) inside, next, List.sum_append, List.sum_singleton,
      ← Option.some.inj (Option.some.inj here)]
    ring_nf
  · rw [getElem?_sma valid (by omega), if_neg (by omega)] at here
    cases here

end Plain

/-! ### Exponential averages -/

/-- The average at bar `i` that starts from the mean of the first `n` values and takes a share `k` of each later
one. -/
def seeded (k : α) (n : Nat) (values : List α) (i : Nat) : α :=
  ((values.take (i + 1)).drop n).foldl (blend k) (average (values.take n))

/-- The share of a new value in an exponential average. -/
def factor (α : Type) [Exact α] (period : Int) : α := 2 / (period + 1)

section Exponential
variable {values : List α} {period : Int} {k : α} {n i : Nat}

theorem factor_nonneg (valid : 1 ≤ period) : 0 ≤ factor α period := by
  have width : (1 : α) ≤ period := by exact_mod_cast valid
  exact div_nonneg two_pos.le (by linarith)

theorem factor_le_one (valid : 1 ≤ period) : factor α period ≤ 1 := by
  have width : (1 : α) ≤ period := by exact_mod_cast valid
  rw [factor, div_le_one (by linarith)]
  linarith

omit [Exact α] in
theorem getElem?_states {β : Type} (step : α → β → α) (seed : α) {xs : List β} {j : Nat} (inside : j ≤ xs.length) :
    (states step seed xs)[j]? = some ((xs.take j).foldl step seed) := by
  induction xs generalizing seed j with
  | nil =>
    obtain rfl := Nat.le_zero.mp inside
    rfl
  | cons x xs ih =>
    cases j with
    | zero => rfl
    | succ j => exact ih (step seed x) (Nat.le_of_succ_le_succ inside)

theorem getElem?_ema (valid : 1 ≤ period) (inside : i < values.length) : (ema values period)[i]? =
    some (if period.toNat - 1 ≤ i then some (seeded (factor α period) period.toNat values i) else none) := by
  have step : (fun last x : α => (x - last) * (2.0 / ofInt (period + 1)) + last) = blend (factor α period) := by
    funext last x
    rw [blend, factor, two_eq, ofInt_eq, Int.cast_add, Int.cast_one]
    ring
  rw [ema]
  by_cases enough : period ≤ values.length
  · rw [if_pos ⟨valid, enough⟩]
    dsimp only
    rw [step, List.getElem?_append, List.length_replicate]
    by_cases early : i < period.toNat - 1
    · rw [if_pos early, if_neg (by omega), List.getElem?_replicate, if_pos early]
    · have bars : i - (period.toNat - 1) = i + 1 - period.toNat := by omega
      rw [if_neg early, if_pos (by omega), List.getElem?_map, getElem?_states _ _ (by rw [List.length_drop]; omega),
        bars, ← List.drop_take, mean_eq]
      rfl
  · rw [if_neg (by omega), if_neg (by omega), List.getElem?_replicate, if_pos inside]

/-- An average over all values starts from the first one. -/
theorem exists_emaContinuous (valid : 1 ≤ period) (values : List α) :
    ∃ answers, emaContinuous values period = .ok answers ∧ answers.length = values.length ∧
      ∀ i < values.length, answers[i]? = some (seeded (factor α period) 1 values i) := by
  cases values with
  | nil => exact ⟨[], rfl, rfl, nofun⟩
  | cons x rest =>
    have apart : ((period + 1 : Int) : α) ≠ 0 := by exact_mod_cast (by omega : period + 1 ≠ 0)
    have share : (2.0 : α) / ((period + 1 : Int) : α) = factor α period := by
      rw [factor, two_eq, Int.cast_add, Int.cast_one]
    refine ⟨states (blend (factor α period)) x rest, ?_, length_states _ _ _, fun i inside => ?_⟩
    · rw [emaContinuous, ofInt?_eq, ok_bind, div?_eq _ apart, ok_bind, share, one_eq]
      rfl
    · have first : average ([x] : List α) = x := by simp [average]
      rw [getElem?_states _ _ (Nat.le_of_lt_succ inside), seeded, List.take_succ_cons, List.take_succ_cons,
        List.take_zero, first]
      rfl

theorem isBetween_seeded (nonneg : 0 ≤ k) (most : k ≤ 1) (valid : 1 ≤ n) (whole : n ≤ i + 1)
    (inside : i < values.length) : IsBetween (values.take (i + 1)) (seeded k n values i) := by
  have filled : values.take n ≠ [] := List.ne_nil_of_length_pos (by rw [List.length_take]; omega)
  have seed : IsBetween (values.take (i + 1)) (average (values.take n)) :=
    (isBetween_average filled).mono (List.take_subset_take_left values whole)
  exact seed.foldl nonneg most fun x member => List.mem_of_mem_drop member

end Exponential

/-! ### Weighted averages -/

/-- Whether the curve has a weight above zero at every lag of a window. -/
def HasPositiveKernel (window : Int) (offset : α) (sigma : Span α) : Prop :=
  ∀ s, sigma.deviation window = .ok s → ∀ lag : Nat, lag < window →
    ∀ w, bellWeight s (lag - ⌊offset * ((window - 1 : Int) : α)⌋) = .ok w → 0 < w

theorem hasPositiveKernel (positive : ∀ x : α, 0 < exp x) (window : Int) (offset : α) (sigma : Span α) :
    HasPositiveKernel window offset sigma := by
  intro s deviation lag inside w weight
  obtain ⟨square, -, weight⟩ := bind_ok weight
  obtain ⟨exponent, -, weight⟩ := bind_ok weight
  rw [← pure_ok weight]
  exact positive exponent

section Kernel
variable {window : Int} {offset : α} {sigma : Span α}

theorem exists_alma (valid : 1 ≤ window) (sound : sigma.number ≠ 0) (positive : HasPositiveKernel window offset sigma)
    (values : List α) :
    ∃ (answers : List α) (entry : Nat → α), alma values window offset sigma = .ok answers ∧
      answers.length = values.length ∧
      ∀ i < values.length, answers[i]? = some (entry i) ∧ IsBetween (trailing window.toNat values i) (entry i) := by
  obtain ⟨s, weights, deviation, bell, averaged⟩ := exists_weights sound valid offset values.length
  have size : (min window values.length).toNat = weights.length := by
    rw [← (mapM_ok_iff.mp bell).length_eq, List.length_range]
  have above : ∀ w ∈ weights, 0 < w := by
    intro w member
    obtain ⟨lag, inside, weight⟩ := mem_of_mapM bell member
    have := List.mem_range.mp inside
    exact positive s deviation lag (by omega) w weight
  refine ⟨_, fun i => weightedMean weights (values.take (i + 1)).reverse, averaged values rfl, ?_,
    fun i inside => ⟨?_, ?_⟩⟩
  · rw [smoothed, List.length_map, List.length_range]
  · rw [smoothed, List.getElem?_map, List.getElem?_range inside, Option.map_some]
  · have weighted : weights ≠ [] := List.ne_nil_of_length_pos (by omega)
    have filled : (values.take (i + 1)).reverse ≠ [] := List.ne_nil_of_length_pos (by simp; omega)
    -- the lags that have a weight are those of the window
    have start : (values.take (i + 1)).length - weights.length = i + 1 - window.toNat := by
      rw [List.length_take]
      omega
    refine (isBetween_weightedMean above weighted filled).mono fun x member => ?_
    rwa [List.take_reverse, start, List.mem_reverse] at member

end Kernel

/-! ### Series of averages -/

/-- Averages of the windows of the bars from `first` on: each lies within the range of its window, so that values
that are all the same have themselves as averages. -/
structure IsAverage (values : List α) (first : Nat) (window : Nat → List α) (series : List (Option α)) : Prop where
  length : series.length = values.length
  block : IsBlock first values.length series
  within : ∀ (i : Nat) y, series[i]? = some (some y) → ∃ lo hi, IsRange (window i) lo hi ∧ lo ≤ y ∧ y ≤ hi
  constant : ∀ c, (∀ x ∈ values, x = c) → ∀ (i : Nat) y, series[i]? = some (some y) → y = c

section Series
variable {values : List α} {first : Nat} {window : Nat → List α} {series : List (Option α)} {period : Int}

theorem isAverage_of_entries {entry : Nat → α} (size : series.length = values.length)
    (entries : ∀ i < values.length, series[i]? = some (if first ≤ i then some (entry i) else none))
    (between : ∀ i < values.length, first ≤ i → IsBetween (window i) (entry i))
    (part : ∀ i, ∀ x ∈ window i, x ∈ values) : IsAverage values first window series := by
  have found {i : Nat} {y : α} (here : series[i]? = some (some y)) : IsBetween (window i) y := by
    have inside : i < values.length := size ▸ (List.getElem?_eq_some_iff.mp here).1
    rw [entries i inside] at here
    split at here
    · rename_i whole
      exact Option.some.inj (Option.some.inj here) ▸ between i inside whole
    · cases here
  refine ⟨size, ?_, fun i y here => (found here).exists_isRange, fun c constant i y here => ?_⟩
  · rw [← size] at entries ⊢
    exact isBlock_of_entries entries
  · exact (found here).eq_of_constant fun x member => constant x (part i x member)

theorem isAverage_map_some {answers : List α} {entry : Nat → α} (size : answers.length = values.length)
    (entries : ∀ i < values.length, answers[i]? = some (entry i) ∧ IsBetween (window i) (entry i))
    (part : ∀ i, ∀ x ∈ window i, x ∈ values) : IsAverage values 0 window (answers.map some) := by
  apply isAverage_of_entries ((List.length_map some).trans size)
  · intro i inside
    rw [List.getElem?_map, (entries i inside).1, if_pos (Nat.zero_le i), Option.map_some]
  · intro i inside _
    exact (entries i inside).2
  · exact part

theorem isAverage_sma (valid : 1 ≤ period) (values : List α) :
    IsAverage values (period.toNat - 1) (trailing period.toNat values) (sma values period) := by
  apply isAverage_of_entries (length_sma values period)
  · intro i inside
    exact getElem?_sma valid inside
  · intro i inside _
    exact isBetween_average (trailing_ne_nil (by omega) inside)
  · intro i x member
    exact mem_of_mem_trailing member

theorem isAverage_ema (valid : 1 ≤ period) (values : List α) :
    IsAverage values (period.toNat - 1) (fun i => values.take (i + 1)) (ema values period) := by
  apply isAverage_of_entries (length_ema values period)
  · intro i inside
    exact getElem?_ema valid inside
  · intro i inside whole
    exact isBetween_seeded (factor_nonneg valid) (factor_le_one valid) (by omega) (by omega) inside
  · intro i x member
    exact List.mem_of_mem_take member

theorem exists_emaContinuous_isAverage (valid : 1 ≤ period) (values : List α) :
    ∃ answers, emaContinuous values period = .ok answers ∧
      IsAverage values 0 (fun i => values.take (i + 1)) (answers.map some) := by
  obtain ⟨answers, h, size, entries⟩ := exists_emaContinuous valid values
  refine ⟨answers, h, ?_⟩
  apply isAverage_map_some size
  · intro i inside
    refine ⟨entries i inside, ?_⟩
    exact isBetween_seeded (factor_nonneg valid) (factor_le_one valid) (Nat.le_refl 1) (by omega) inside
  · intro i x member
    exact List.mem_of_mem_take member

theorem exists_alma_isAverage (valid : 1 ≤ period) {offset : α} {sigma : Span α} (sound : sigma.number ≠ 0)
    (positive : HasPositiveKernel period offset sigma) (values : List α) :
    ∃ answers, alma values period offset sigma = .ok answers ∧
      IsAverage values 0 (trailing period.toNat values) (answers.map some) := by
  obtain ⟨answers, entry, h, size, entries⟩ := exists_alma valid sound positive values
  exact ⟨answers, h, isAverage_map_some size entries fun i x member => mem_of_mem_trailing member⟩

end Series

end Exact

open Exact

/-- Exactly calculated, the plain average is the sum of its window over the number of bars, and moves on with the
value that is new and the one that is old. All averages lie within the range of the values that they are made of, and
that of a constant series is the constant. -/
theorem averages_within {α : Type} [Exact α] {period : Int} (valid : 1 ≤ period) (values : List α) :
    (∀ i : Nat, period ≤ i + 1 → i < values.length →
      (sma values period)[i]? =
        some (some ((∑ k ∈ Finset.Ico (i + 1 - period.toNat) (i + 1), values.getD k 0) / period))) ∧
    (∀ (i : Nat) (y x x' : α), (sma values period)[i]? = some (some y) → values[i + 1]? = some x →
      values[i + 1 - period.toNat]? = some x' →
      (sma values period)[i + 1]? = some (some (y + (x - x') / period))) ∧
    IsAverage values (period.toNat - 1) (trailing period.toNat values) (sma values period) ∧
    IsAverage values (period.toNat - 1) (fun i => values.take (i + 1)) (ema values period) ∧
    (∃ answers, emaContinuous values period = .ok answers ∧
      IsAverage values 0 (fun i => values.take (i + 1)) (answers.map some)) ∧
    ∀ (offset : α) (sigma : Span α), sigma.number ≠ 0 → HasPositiveKernel period offset sigma →
      ∃ answers, alma values period offset sigma = .ok answers ∧
        IsAverage values 0 (trailing period.toNat values) (answers.map some) := by
  refine ⟨?_, ?_, isAverage_sma valid values, isAverage_ema valid values, exists_emaContinuous_isAverage valid values,
    ?_⟩
  · intro i whole inside
    rw [getElem?_sma_of_whole valid whole inside, sum_trailing (by omega) inside]
  · intro i y x x' here new old
    exact sma_succ valid here new old
  · intro offset sigma sound positive
    exact exists_alma_isAverage valid sound positive values

/-- Averages of three values, one of which is new at the last bar and one old. -/
theorem averages_within_of_three : (1 : Int) ≤ 2 ∧
    (sma ([3, 1, 2] : List ℝ) 2)[1]? = some (some ((3 + 1) / 2)) ∧
    (sma ([3, 1, 2] : List ℝ) 2)[2]? = some (some ((3 + 1) / 2 + (2 - 3) / 2)) ∧
    ∃ answers, alma ([3, 1, 2] : List ℝ) 2 0.9 (.whole 6) = .ok answers ∧
      IsAverage ([3, 1, 2] : List ℝ) 0 (trailing 2 [3, 1, 2]) (answers.map some) := by
  have valid : (1 : Int) ≤ 2 := by decide
  obtain ⟨whole, next, -, -, -, weighted⟩ := averages_within valid ([3, 1, 2] : List ℝ)
  have first : (sma ([3, 1, 2] : List ℝ) 2)[1]? = some (some ((3 + 1) / 2)) := by
    simpa [Finset.sum_range_succ] using whole 1 (by decide) (by decide)
  have sound : (Span.whole 6 : Span ℝ).number ≠ 0 := by
    rw [Span.number, ofInt_eq]
    norm_num
  exact ⟨valid, first, next 1 _ 2 3 first rfl rfl,
    weighted 0.9 (.whole 6) sound (hasPositiveKernel Real.exp_pos 2 0.9 (.whole 6))⟩

end ChartOverlay
