import Mathlib
import ChartOverlay.Feed.Placeholder
import ChartOverlay.Feed.Provider
import ChartOverlay.Proofs.Exact

/-!
# Placeholder walks

A placeholder candle moves from the close before it, its reference, by at most an eightieth of that reference to its
opening, by as much again to its close, and its shadows reach as far beyond these two. So it loses at most three
eightieths of a reference above zero, and by induction over the walk no price of it ever falls to zero, however long it
is: `placeholder_isWalk`.
-/

namespace ChartOverlay

open Arith

/-! ### Symbols -/

/-- What stands before the last colon does not count. -/
theorem ticker_qualified (exchange symbol : Text) : ticker (exchange ++ .char ':' :: symbol) = ticker symbol := by
  unfold ticker
  rw [List.reverse_append, List.reverse_cons, List.append_assoc, List.takeWhile_append]
  split
  · rename_i bare
    rw [List.singleton_append, List.takeWhile_cons_of_neg (by simp), List.append_nil,
      (List.takeWhile_prefix _).eq_of_length bare]
  · rfl

theorem ticker_marketSymbol (symbol : Text) : ticker (marketSymbol symbol) = ticker symbol := by
  unfold marketSymbol
  split
  · rfl
  · exact ticker_qualified "IDX" symbol

theorem basePrices_pos : ∀ entry ∈ basePrices, 0 < entry.2 := by
  decide

namespace Exact

variable {α : Type} [Exact α]

theorem basePrice_pos (symbol : Text) : (0 : α) < basePrice symbol := by
  have known : 0 < (basePrices.lookup (ticker symbol)).getD 5000 := by
    cases found : basePrices.lookup (ticker symbol) with
    | none => decide
    | some price =>
      obtain ⟨before, after, split, -⟩ := List.lookup_eq_some_iff.mp found
      exact basePrices_pos _ (split ▸ List.mem_append_right before List.mem_cons_self)
  rw [basePrice, ofInt_eq]
  exact_mod_cast known

/-! ### Candles -/

theorem greatest_eq (x y : α) : greatest x y = max x y := by
  unfold greatest
  split
  · rename_i above
    exact (max_eq_right (lt_iff.mp above).le).symm
  · rename_i below
    exact (max_eq_left (not_lt.mp (mt lt_iff.mpr below))).symm

theorem least_eq (x y : α) : least x y = min x y := by
  unfold least
  split
  · rename_i below
    exact (min_eq_right (lt_iff.mp below).le).symm
  · rename_i above
    exact (min_eq_left (not_lt.mp (mt lt_iff.mpr above))).symm

/-- Prices above zero of which the high and the low are the extremes. -/
structure IsBar (c : Candle α) : Prop where
  positive : 0 < c.low
  below : c.low ≤ min c.opening c.close
  above : max c.opening c.close ≤ c.high

/-- A candle that starts within an eightieth of its reference, which is 1.25 %, and ends within as much of where it
starts. -/
structure MovesFrom (reference : α) (c : Candle α) : Prop where
  opening : |c.opening - reference| ≤ reference / 80
  close : |c.close - c.opening| ≤ reference / 80

/-- Bars each of which moves from the close of the one before it. -/
def IsWalk : α → List (Candle α) → Prop
  | _, [] => True
  | reference, c :: rest => IsBar c ∧ MovesFrom reference c ∧ IsWalk c.close rest

theorem abs_swing_le {price draw : α} (pos : 0 < price) (fair : 0 ≤ draw ∧ draw < 1) :
    |(draw - 0.5) * (price * 0.025)| ≤ price / 80 := by
  have half : |draw - 0.5| ≤ 1 / 2 := by
    rw [abs_le]
    constructor <;> norm_num <;> linarith
  calc |(draw - 0.5) * (price * 0.025)|
    _ = |draw - 0.5| * (price * 0.025) := by rw [abs_mul, abs_of_nonneg (a := price * 0.025) (by positivity)]
    _ ≤ 1 / 2 * (price * 0.025) := mul_le_mul_of_nonneg_right half (by positivity)
    _ = price / 80 := by norm_num; ring

theorem shadow_bounds {price draw : α} (pos : 0 < price) (fair : 0 ≤ draw ∧ draw < 1) :
    0 ≤ draw * (price * 0.025) * 0.5 ∧ draw * (price * 0.025) * 0.5 < price / 80 := by
  have width : draw * (price * 0.025) * 0.5 = draw * (price / 80) := by
    norm_num
    ring
  rw [width]
  exact ⟨mul_nonneg fair.1 (by positivity), mul_lt_of_lt_one_left (by positivity) fair.2⟩

/-- A candle drawn at a price above zero is a bar that closes above zero. -/
theorem walkCandle_isBar {price a b c d : α} (time : Int) (pos : 0 < price) (first : 0 ≤ a ∧ a < 1)
    (second : 0 ≤ b ∧ b < 1) (third : 0 ≤ c ∧ c < 1) (fourth : 0 ≤ d ∧ d < 1) :
    IsBar (walkCandle time price a b c d) ∧ MovesFrom price (walkCandle time price a b c d) := by
  have start := abs_swing_le pos first
  have swing := abs_swing_le pos second
  obtain ⟨up, -⟩ := shadow_bounds pos third
  obtain ⟨down, short⟩ := shadow_bounds pos fourth
  unfold walkCandle
  dsimp only
  rw [greatest_eq, least_eq]
  generalize (a - 0.5) * (price * 0.025) = rise at start ⊢
  generalize (b - 0.5) * (price * 0.025) = turn at swing ⊢
  generalize c * (price * 0.025) * 0.5 = upper at up ⊢
  generalize d * (price * 0.025) * 0.5 = lower at down short ⊢
  have ⟨opening, _⟩ := abs_le.mp start
  have ⟨close, _⟩ := abs_le.mp swing
  refine ⟨⟨?_, ?_, ?_⟩, ⟨?_, ?_⟩⟩
  · -- three moves of an eightieth leave most of the price
    have bottom : price - 2 * (price / 80) ≤ min (price + rise) (price + rise + turn) := by
      rw [le_min_iff]
      constructor <;> linarith
    show 0 < min (price + rise) (price + rise + turn) - lower
    linarith
  · show min (price + rise) (price + rise + turn) - lower ≤ _
    linarith
  · show _ ≤ max (price + rise) (price + rise + turn) + upper
    linarith
  · show |price + rise - price| ≤ _
    rwa [add_sub_cancel_left]
  · show |price + rise + turn - (price + rise)| ≤ _
    rwa [add_sub_cancel_left]

theorem IsBar.close_pos {c : Candle α} (bar : IsBar c) : 0 < c.close :=
  bar.positive.trans_le (bar.below.trans (min_le_right _ _))

/-! ### Walks -/

section Walks
variable {draws : Draws α}

theorem isWalk_walk (fair : ∀ k, 0 ≤ draws k ∧ draws k < 1) (now : Int) (left k : Nat) {price : α} (pos : 0 < price) :
    IsWalk price (walk draws now left k price) := by
  induction left generalizing k price with
  | zero => trivial
  | succ left ih =>
    have ⟨bar, moves⟩ := walkCandle_isBar (now - left * daySeconds) pos (fair k) (fair (k + 1)) (fair (k + 2))
      (fair (k + 3))
    exact ⟨bar, moves, ih (k + 4) bar.close_pos⟩

omit [Exact α] in
theorem times_walk [Arith α] (draws : Draws α) (now : Int) (left k : Nat) (price : α) :
    (walk draws now left k price).map (·.time) =
      (List.range left).map fun (i : Nat) => now - ((left : Int) - 1 - i) * daySeconds := by
  induction left generalizing k price with
  | zero => rfl
  | succ left ih =>
    have shift (i : Nat) : ((left + 1 : Nat) : Int) - 1 - (i + 1 : Nat) = left - 1 - i := by omega
    have first : ((left + 1 : Nat) : Int) - 1 - (0 : Nat) = left := by omega
    simp only [walk, List.map_cons, List.range_succ_eq_map, List.map_map, Function.comp_def, ih, shift, first]
    rfl

end Walks

end Exact

open Exact

/-- Exactly calculated, placeholder candles are one for each day up to the last, all of them bars with prices above
zero, and each moves from the close before it, the first from the base price of its symbol. Draws decide the rest: the
exchange in front of a symbol does not count. -/
theorem placeholder_isWalk {α : Type} [Exact α] {draws : Draws α} (fair : ∀ k, 0 ≤ draws k ∧ draws k < 1)
    {count : Int} (counted : 0 ≤ count) (now : Int) (symbol : Text) :
    (placeholderCandles symbol count now draws).length = count + 1 ∧
      (placeholderCandles symbol count now draws).map (·.time) =
        (List.range (count.toNat + 1)).map (fun (i : Nat) => now - (count - i) * 86400) ∧
      IsWalk (basePrice symbol) (placeholderCandles symbol count now draws) ∧
      placeholderCandles (marketSymbol symbol) count now draws = placeholderCandles symbol count now draws ∧
      ∀ exchange : Text, placeholderCandles (exchange ++ .char ':' :: symbol) count now draws =
        placeholderCandles symbol count now draws := by
  have days : placeholderCount count = count.toNat + 1 := by
    rw [placeholderCount]
    omega
  have times : (placeholderCandles symbol count now draws).map (·.time) =
      (List.range (count.toNat + 1)).map (fun (i : Nat) => now - (count - i) * 86400) := by
    rw [placeholderCandles, days, times_walk]
    refine List.map_congr_left fun i _ => ?_
    rw [daySeconds]
    omega
  refine ⟨?_, times, isWalk_walk fair now _ 0 (basePrice_pos symbol), ?_, ?_⟩
  · have size := congrArg List.length times
    rw [List.length_map, List.length_map, List.length_range] at size
    omega
  · rw [placeholderCandles, placeholderCandles, basePrice, basePrice, ticker_marketSymbol]
  · intro exchange
    rw [placeholderCandles, placeholderCandles, basePrice, basePrice, ticker_qualified]

/-- Draws at the bottom of their range and near its top in turn. -/
noncomputable def swingingDraws : Draws ℝ := fun k => if k % 3 = 0 then 0 else 9 / 10

theorem placeholder_isWalk_of_swinging :
    (∀ k, 0 ≤ swingingDraws k ∧ swingingDraws k < 1) ∧ (0 : Int) ≤ 2 ∧
      IsWalk (9800 : ℝ) (placeholderCandles "BBCA" 2 100 swingingDraws) ∧
      (placeholderCandles "BBCA" 2 100 swingingDraws).map (·.time) = [-172700, -86300, 100] ∧
      placeholderCandles "IDX:BBCA" 2 100 swingingDraws = placeholderCandles "BBCA" 2 100 swingingDraws := by
  have fair (k : Nat) : 0 ≤ swingingDraws k ∧ swingingDraws k < 1 := by
    unfold swingingDraws
    split <;> norm_num
  have counted : (0 : Int) ≤ 2 := by decide
  obtain ⟨-, times, moves, same, -⟩ := placeholder_isWalk fair counted 100 "BBCA"
  have base : (basePrice "BBCA" : ℝ) = 9800 := by
    rw [basePrice, ofInt_eq]
    exact congrArg Int.cast (by decide : (basePrices.lookup (ticker "BBCA")).getD 5000 = 9800)
  exact ⟨fair, counted, base ▸ moves, times, same⟩

end ChartOverlay
