import Mathlib
import ChartOverlay.Proofs.Exact
import ChartOverlay.Proofs.SignalLine

/-!
# Relative strength

The strength index of a bar weighs how much the values rose against how much they fell. Its averages are plain means
at the first bar; at a later one the mean of all steps before the last counts for every bar of the window but one, and
the last step for that one. Calculated exactly, each average is one formula in running sums (`strengthAverage_eq`).
None is below zero, so the index is at least zero and below one hundred, and because it is a quotient it does not
change where the values are moved or stretched: `rsi_strength`.
-/

namespace ChartOverlay

open Arith

namespace Exact

variable {α : Type} [Exact α]

/-! ### Steps -/

/-- How much the values rise into bar `i`. -/
def rise (values : List α) (i : Nat) : α := max (values.getD i 0 - values.getD (i - 1) 0) 0

/-- How much the values fall into bar `i`. -/
def fall (values : List α) (i : Nat) : α := max (values.getD (i - 1) 0 - values.getD i 0) 0

theorem rise_nonneg (values : List α) (i : Nat) : 0 ≤ rise values i := le_max_right _ 0

theorem fall_nonneg (values : List α) (i : Nat) : 0 ≤ fall values i := le_max_right _ 0

theorem gain_eq (delta : α) : gain delta = max delta 0 := by
  rw [gain, zero_eq]
  split
  · rename_i above
    exact (max_eq_left (gt_iff.mp above).le).symm
  · rename_i below
    exact (max_eq_right (not_lt.mp (mt gt_iff.mpr below))).symm

theorem loss_eq (delta : α) : loss delta = max (-delta) 0 := by
  rw [loss, zero_eq]
  split
  · rename_i below
    exact (max_eq_left (neg_nonneg.mpr (lt_iff.mp below).le)).symm
  · rename_i above
    exact (max_eq_right (neg_nonpos.mpr (not_lt.mp (mt lt_iff.mpr above)))).symm

theorem length_deltas (values : List α) : (deltas values).length = values.length - 1 := by
  rw [deltas, List.length_zipWith, List.length_drop]
  omega

theorem getElem?_deltas {values : List α} {i : Nat} (inside : i + 1 < values.length) :
    (deltas values)[i]? = some (values.getD (i + 1) 0 - values.getD i 0) := by
  rw [deltas, List.getElem?_zipWith, List.getElem?_drop, Nat.add_comm 1 i, List.getElem?_eq_getElem inside,
    List.getElem?_eq_getElem (Nat.lt_of_succ_lt inside), List.getD_eq_getElem _ _ inside,
    List.getD_eq_getElem _ _ (Nat.lt_of_succ_lt inside)]

/-- Steps in a list, the first of which leads into bar one. -/
def LeadsInto (step : Nat → α) (steps : List α) : Prop := ∀ k < steps.length, steps[k]? = some (step (k + 1))

theorem leadsInto_gains (values : List α) : LeadsInto (rise values) ((deltas values).map gain) := by
  intro k inside
  rw [List.length_map, length_deltas] at inside
  rw [List.getElem?_map, getElem?_deltas (by omega), Option.map_some, gain_eq]
  rfl

theorem leadsInto_losses (values : List α) : LeadsInto (fall values) ((deltas values).map loss) := by
  intro k inside
  rw [List.length_map, length_deltas] at inside
  rw [List.getElem?_map, getElem?_deltas (by omega), Option.map_some, loss_eq, neg_sub]
  rfl

/-! ### Averages of steps -/

/-- The average at bar `i` of the steps so far. At the first bar all of them count alike; later the mean of the steps
before the last counts for every bar of the window but one. -/
def runningAverage (step : Nat → α) (period : Int) (i : Nat) : α :=
  if i = period then (∑ k ∈ Finset.Ico 1 (i + 1), step k) / period
  else ((period - 1) * (∑ k ∈ Finset.Ico 1 i, step k) / (i - 1) + step i) / period

section Steps
variable {step : Nat → α} {steps : List α} {period : Int} {i : Nat}

theorem sum_steps (h : LeadsInto step steps) (inside : i ≤ steps.length) :
    (steps.take i).sum = ∑ k ∈ Finset.Ico 1 (i + 1), step k := by
  rw [sum_take fun k early => h k (Nat.lt_of_lt_of_le early inside), Finset.range_eq_Ico, Finset.sum_Ico_add',
    Nat.zero_add]

/-- The average that is calculated anew at each bar is the one in running sums. -/
theorem strengthAverage_eq (h : LeadsInto step steps) (valid : 1 ≤ period) (whole : period ≤ i)
    (inside : i ≤ steps.length) : strengthAverage steps period.toNat i = runningAverage step period i := by
  have count : ((period.toNat : Nat) : α) = period := by
    rw [← Int.cast_natCast, Int.toNat_of_nonneg (by omega)]
  rw [strengthAverage, runningAverage]
  by_cases first : i = period
  · have place : period.toNat = i := by omega
    rw [if_pos place.symm, if_pos first, mean_eq, sum_steps h (by omega), List.length_take,
      Nat.min_eq_left (by omega), count, place]
  · -- the mean is over the steps into the bars before this one, of which there is one less than bars
    have earlier : i - 1 + 1 = i := by omega
    have last : steps[i - 1]? = some (step i) := by
      rw [h (i - 1) (by omega), earlier]
    have before : ((i - 1 : Nat) : α) = i - 1 := by
      rw [Nat.cast_sub (by omega), Nat.cast_one]
    rw [if_neg (by omega), if_neg first, last]
    dsimp only [Option.getD_some]
    rw [mean_eq, sum_steps h (by omega), List.length_take, Nat.min_eq_left (by omega), before, earlier, ofInt_eq,
      ofInt_eq, Int.cast_sub, Int.cast_one, Int.cast_natCast, count]
    ring

theorem runningAverage_nonneg (nonneg : ∀ k, 0 ≤ step k) (valid : 1 ≤ period) (whole : period ≤ i) :
    0 ≤ runningAverage step period i := by
  have width : (1 : α) ≤ period := by exact_mod_cast valid
  have bars : (1 : α) ≤ i := by exact_mod_cast valid.trans whole
  have sums (s : Finset Nat) : 0 ≤ ∑ k ∈ s, step k := Finset.sum_nonneg fun k _ => nonneg k
  rw [runningAverage]
  split
  · exact div_nonneg (sums _) (by linarith)
  · have earlier : 0 ≤ (period - 1) * (∑ k ∈ Finset.Ico 1 i, step k) / ((i : α) - 1) :=
      div_nonneg (mul_nonneg (sub_nonneg.mpr width) (sums _)) (sub_nonneg.mpr bars)
    exact div_nonneg (add_nonneg earlier (nonneg i)) (by linarith)

end Steps

/-! ### The index -/

/-- The index of average gains and losses. -/
structure IsIndex (gains losses x : α) : Prop where
  calculated : x = strengthIndex gains losses
  nonneg : 0 ≤ x
  below : x < 100
  zero_iff : x = 0 ↔ 0 < losses ∧ gains = 0

/-- How many times the losses the gains are; one hundred times if there are no losses. -/
def strength (gains losses : α) : α := if losses = 0 then 100 else gains / losses

section Index
variable {gains losses : α}

theorem strengthIndex_eq (gains losses : α) :
    strengthIndex gains losses = 100 - 100 / (1 + strength gains losses) := by
  simp only [strengthIndex, strength, isZero_iff, hundred_eq, one_eq]

theorem strength_nonneg (gained : 0 ≤ gains) (lost : 0 ≤ losses) : 0 ≤ strength gains losses := by
  rw [strength]
  split
  · norm_num
  · exact div_nonneg gained lost

theorem strength_eq_zero_iff (lost : 0 ≤ losses) : strength gains losses = 0 ↔ 0 < losses ∧ gains = 0 := by
  rw [strength]
  split
  · rename_i none
    simp [none]
  · rename_i some
    rw [div_eq_zero_iff, or_iff_left some]
    exact (and_iff_right (lt_of_le_of_ne lost (Ne.symm some))).symm

theorem isIndex_strengthIndex (gained : 0 ≤ gains) (lost : 0 ≤ losses) :
    IsIndex gains losses (strengthIndex gains losses) := by
  have nonneg := strength_nonneg gained lost
  have pos : 0 < 1 + strength gains losses := by linarith
  have share : strengthIndex gains losses = 100 * strength gains losses / (1 + strength gains losses) := by
    rw [strengthIndex_eq]
    field_simp
    ring
  refine ⟨rfl, ?_, ?_, ?_⟩
  · rw [share]
    positivity
  · rw [strengthIndex_eq, sub_lt_self_iff]
    positivity
  · rw [share, div_eq_zero_iff, or_iff_left pos.ne', mul_eq_zero, or_iff_right (by norm_num),
      strength_eq_zero_iff lost]

end Index

/-! ### Stretched values -/

section Stretched
variable {a : α} (pos : 0 < a)

theorem deltas_stretched (a b : α) (values : List α) :
    deltas (values.map fun x => a * x + b) = (deltas values).map (a * ·) := by
  rw [deltas, deltas, ← List.map_drop, List.zipWith_map, List.map_zipWith]
  simp only [add_sub_add_right_eq_sub, mul_sub]

theorem mean_stretched (a : α) (steps : List α) : mean (steps.map (a * ·)) = a * mean steps := by
  rw [mean_eq, mean_eq, List.length_map, List.sum_map_mul_left, List.map_id', mul_div_assoc]

theorem strengthAverage_stretched (a : α) (steps : List α) (period i : Nat) :
    strengthAverage (steps.map (a * ·)) period i = a * strengthAverage steps period i := by
  have last : ((steps.map (a * ·))[i - 1]?).getD 0.0 = a * (steps[i - 1]?).getD 0.0 := by
    rw [List.getElem?_map]
    cases steps[i - 1]? with
    | none => rw [Option.map_none, Option.getD_none, zero_eq, mul_zero]
    | some x => rfl
  unfold strengthAverage
  split
  · rw [← List.map_take, mean_stretched]
  · dsimp only
    rw [← List.map_take, mean_stretched, last]
    ring

include pos

theorem gain_stretched (delta : α) : gain (a * delta) = a * gain delta := by
  rw [gain_eq, gain_eq, mul_max_of_nonneg _ _ pos.le, mul_zero]

theorem loss_stretched (delta : α) : loss (a * delta) = a * loss delta := by
  rw [loss_eq, loss_eq, mul_max_of_nonneg _ _ pos.le, mul_zero, mul_neg]

theorem strengthIndex_stretched (gains losses : α) :
    strengthIndex (a * gains) (a * losses) = strengthIndex gains losses := by
  have same : strength (a * gains) (a * losses) = strength gains losses := by
    simp only [strength, mul_div_mul_left _ _ pos.ne', mul_eq_zero_iff_left pos.ne']
  rw [strengthIndex_eq, strengthIndex_eq, same]

theorem rsi_stretched (b : α) (values : List α) (period : Int) :
    rsi (values.map fun x => a * x + b) period = rsi values period := by
  have gains : ((deltas values).map (a * ·)).map gain = ((deltas values).map gain).map (a * ·) := by
    rw [List.map_map, List.map_map]
    exact List.map_congr_left fun delta _ => gain_stretched pos delta
  have losses : ((deltas values).map (a * ·)).map loss = ((deltas values).map loss).map (a * ·) := by
    rw [List.map_map, List.map_map]
    exact List.map_congr_left fun delta _ => loss_stretched pos delta
  unfold rsi
  dsimp only
  rw [deltas_stretched, gains, losses, List.length_map]
  simp only [strengthAverage_stretched, strengthIndex_stretched pos]

end Stretched

/-! ### Bars -/

/-- The average gain that the index of a bar is calculated from. -/
def averageGain (values : List α) (period : Int) (i : Nat) : α :=
  strengthAverage ((deltas values).map gain) period.toNat i

/-- The average loss that the index of a bar is calculated from. -/
def averageLoss (values : List α) (period : Int) (i : Nat) : α :=
  strengthAverage ((deltas values).map loss) period.toNat i

section Bars
variable {values : List α} {period : Int} {i : Nat}

theorem averageGain_eq (valid : 1 ≤ period) (whole : period ≤ i) (inside : i < values.length) :
    averageGain values period i = runningAverage (rise values) period i := by
  refine strengthAverage_eq (leadsInto_gains values) valid whole ?_
  rw [List.length_map, length_deltas]
  omega

theorem averageLoss_eq (valid : 1 ≤ period) (whole : period ≤ i) (inside : i < values.length) :
    averageLoss values period i = runningAverage (fall values) period i := by
  refine strengthAverage_eq (leadsInto_losses values) valid whole ?_
  rw [List.length_map, length_deltas]
  omega

theorem length_rsi (values : List α) (period : Int) : (rsi values period).length = values.length := by
  rw [rsi, List.length_map, List.length_range]

theorem getElem?_rsi (valid : 1 ≤ period) (inside : i < values.length) : (rsi values period)[i]? =
    some (if period.toNat ≤ i then
      some (strengthIndex (averageGain values period i) (averageLoss values period i)) else none) := by
  have whole : (1 ≤ period ∧ period ≤ i) ↔ period.toNat ≤ i := by omega
  rw [rsi, List.getElem?_map, List.getElem?_range inside, Option.map_some]
  simp only [whole]
  rfl

theorem isBlock_rsi (valid : 1 ≤ period) (values : List α) :
    IsBlock period.toNat values.length (rsi values period) := by
  rw [← length_rsi values period]
  apply isBlock_of_entries
  intro i inside
  rw [length_rsi] at inside
  exact getElem?_rsi valid inside

end Bars

end Exact

open Exact

/-- Exactly calculated, the strength index is defined from bar `period` on. It is at least zero and below one hundred,
and zero only where there are losses and no gains; its averages are those in running sums; and it is the same for
values that are moved or stretched. -/
theorem rsi_strength {α : Type} [Exact α] {period : Int} (valid : 1 ≤ period) (values : List α) :
    (rsi values period).length = values.length ∧ IsBlock period.toNat values.length (rsi values period) ∧
      (∀ i : Nat, period ≤ i → i < values.length →
        averageGain values period i = runningAverage (rise values) period i ∧
        averageLoss values period i = runningAverage (fall values) period i ∧
        ∃ x, (rsi values period)[i]? = some (some x) ∧
          IsIndex (averageGain values period i) (averageLoss values period i) x) ∧
      ∀ a b : α, 0 < a → rsi (values.map fun x => a * x + b) period = rsi values period := by
  refine ⟨length_rsi values period, isBlock_rsi valid values, ?_, fun a b pos => rsi_stretched pos b values period⟩
  intro i whole inside
  have gains := averageGain_eq valid whole inside
  have losses := averageLoss_eq valid whole inside
  have gained := runningAverage_nonneg (rise_nonneg values) valid whole
  have lost := runningAverage_nonneg (fall_nonneg values) valid whole
  refine ⟨gains, losses, strengthIndex (averageGain values period i) (averageLoss values period i), ?_, ?_⟩
  · rw [getElem?_rsi valid inside, if_pos (by omega)]
  · exact isIndex_strengthIndex (gains ▸ gained) (losses ▸ lost)

/-- Closes that rise and then fall, and the same ones stretched and moved. -/
theorem rsi_strength_of_peak : (1 : Int) ≤ 2 ∧
    (∃ x, (rsi ([1, 4, 4, 2, 1] : List ℝ) 2)[4]? = some (some x) ∧
      IsIndex (averageGain ([1, 4, 4, 2, 1] : List ℝ) 2 4) (averageLoss ([1, 4, 4, 2, 1] : List ℝ) 2 4) x) ∧
    rsi (([1, 4, 4, 2, 1] : List ℝ).map fun x => 100 * x + 7) 2 = rsi [1, 4, 4, 2, 1] 2 := by
  have valid : (1 : Int) ≤ 2 := by decide
  obtain ⟨-, -, bars, stretched⟩ := rsi_strength valid ([1, 4, 4, 2, 1] : List ℝ)
  exact ⟨valid, (bars 4 (by decide) (by decide)).2.2, stretched 100 7 (by norm_num)⟩

end ChartOverlay
