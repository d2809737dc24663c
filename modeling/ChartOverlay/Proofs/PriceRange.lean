import Mathlib
import ChartOverlay.Proofs.LogisticFaults
import ChartOverlay.Proofs.Powers
import ChartOverlay.Proofs.Relabeling

/-!
# The price range

A rescaled value lies between the lowest and the highest of the last closes, at an end of them where the value is at
that end of its own last values. So a trader that goes by price never sells at a close that is the highest of the
last ones, and never buys at one that is the lowest, whatever curve it follows: `rescale_within`. Calculated exactly.
-/

namespace ChartOverlay

open Arith

/-! ### The walk of a trader -/

section Walk
variable {α : Type} {view : Int → α → Except Fault (Option Position)} {holding : Int} {t : Trader}

/-- The position that a signal enters; none if it leaves one. -/
def Signal.entered : Signal → Option Position
  | .buy => some .long
  | .sell => some .short
  | .stopBuy | .stopSell => none

/-- A position is entered only where the view calls for it. -/
theorem called_of_mem_signals {s : Signal} {p : Position} {called : Option Position}
    (member : s ∈ t.signals holding (t.next called)) (entry : s.entered = some p) : called = some p := by
  cases called with
  | none =>
    -- the position is kept, so the signals are exits
    have kept : (t.next none).position = t.position := rfl
    cases s <;> simp_all [Trader.signals, Signal.entered]
  | some q =>
    have taken : (t.next (some q)).position = q := rfl
    cases s <;> cases entry <;> cases q <;> simp_all [Trader.signals]

theorem Trader.called_of_mem_walk {i : Int} {candles : List (Candle α)} {markers : List (Marker α)} {m : Marker α}
    {p : Position} (h : t.walk view holding i candles = .ok markers) (member : m ∈ markers)
    (entry : m.signal.entered = some p) :
    ∃ (k : Nat) (c : Candle α), candles[k]? = some c ∧ m.time = c.time ∧ view (i + k) c.close = .ok (some p) := by
  induction candles generalizing t i markers with
  | nil =>
    obtain rfl := Except.ok.inj h
    cases member
  | cons c rest ih =>
    obtain ⟨called, here, h⟩ := bind_ok h
    obtain ⟨later, walked, h⟩ := bind_ok h
    obtain rfl := pure_ok h
    rcases List.mem_append.mp member with now | member
    · obtain ⟨s, signalled, rfl⟩ := List.mem_map.mp now
      obtain rfl := called_of_mem_signals signalled entry
      exact ⟨0, c, rfl, rfl, by rwa [Int.natCast_zero, Int.add_zero]⟩
    · obtain ⟨k, d, found, time, call⟩ := ih walked member
      have place : i + (k + 1 : Nat) = i + 1 + k := by omega
      exact ⟨k + 1, d, found, time, place ▸ call⟩

/-- Who holds nothing and is never called signals nothing. -/
theorem Trader.walk_of_silent {i : Int} {candles : List (Candle α)} (counter : Int)
    (silent : ∀ (k : Nat) c, candles[k]? = some c → view (i + k) c.close = .ok none) :
    Trader.walk view holding ⟨.hold, counter⟩ i candles = .ok [] := by
  induction candles generalizing i counter with
  | nil => rfl
  | cons c rest ih =>
    have here := silent 0 c rfl
    rw [Int.natCast_zero, Int.add_zero] at here
    have later := ih (i := i + 1) (counter + 1) fun k d found => by
      have place : i + 1 + k = i + (k + 1 : Nat) := by omega
      exact place ▸ silent (k + 1) d found
    have nothing : Trader.signals holding ⟨.hold, counter⟩ ⟨.hold, counter + 1⟩ = [] := by simp [Trader.signals]
    rw [Trader.walk, here, ok_bind]
    simp only [Trader.next, Option.getD_none, if_true, later, ok_bind, nothing]
    rfl

variable [Arith α] {history : History α}

/-- A marker of an entry stands at the bar whose view calls for the position. -/
theorem LogisticConfig.called_of_mem_markers {config : LogisticConfig α} {loss prediction : List α}
    {markers : List (Marker α)} (h : config.markers history loss prediction = .ok markers) {m : Marker α}
    {p : Position} (member : m ∈ markers) (entry : m.signal.entered = some p) {i : Nat} {c : Candle α}
    (here : history.candles[i]? = some c) (time : m.time = c.time) :
    config.normalization ≤ i ∧ viewAt config.usePrice loss prediction i c.close = .ok (some p) := by
  obtain ⟨k, d, found, same, call⟩ := Trader.called_of_mem_walk h member entry
  rw [List.getElem?_drop] at found
  have times : c.time = d.time := time.symm.trans same
  obtain rfl : i = (max config.normalization 1).toNat + k :=
    Nat.le_antisymm ((time_le_iff here found).mp times.le) ((time_le_iff found here).mp times.ge)
  obtain rfl := Option.some.inj (here.symm.trans found)
  have place : (((max config.normalization 1).toNat + k : Nat) : Int) = max config.normalization 1 + k := by omega
  exact ⟨by omega, place ▸ call⟩

end Walk

/-! ### Ranges -/

namespace Exact

variable {α : Type} [Exact α]

/-- The ends of the values of a window. -/
structure IsRange (window : List α) (lo hi : α) : Prop where
  least : IsLeast {y | y ∈ window} lo
  greatest : IsGreatest {y | y ∈ window} hi

section Ranges
variable {values : List α} {window : Int} {i : Nat}

theorem exists_isRange (valid : 1 ≤ window) (whole : window ≤ i + 1) (inside : i < values.length) :
    ∃ lo hi, entry? (lowest values window) i = .ok (some lo) ∧ entry? (highest values window) i = .ok (some hi) ∧
      IsRange (trailing window.toNat values i) lo hi := by
  have numbers : ∀ x ∈ values, isNaN x = false := fun x _ => rfl
  obtain ⟨lo, age, lows, -, bottom⟩ := exists_standsAt hasGaps.ranking numbers valid whole inside
  obtain ⟨hi, age', highs, -, top⟩ := exists_standsAt hasGaps.turned numbers valid whole inside
  refine ⟨lo, hi, entry?_natCast lows, entry?_natCast highs, ⟨bottom.mem, fun y member => ?_⟩, top.mem,
    fun y member => ?_⟩
  · have below := bottom.extreme y member
    rwa [← Bool.not_eq_true, lt_iff, not_lt] at below
  · have above := top.extreme y member
    rwa [← Bool.not_eq_true, gt_iff, not_lt] at above

/-- All values of a window are the same. -/
def IsFlat (window : List α) : Prop := ∀ x ∈ window, ∀ y ∈ window, x = y

theorem IsRange.isFlat_iff {window : List α} {lo hi : α} (range : IsRange window lo hi) :
    IsFlat window ↔ lo = hi := by
  constructor
  · intro flat
    exact flat lo range.least.1 hi range.greatest.1
  · rintro rfl x first y second
    have equal {z : α} (member : z ∈ window) : z = lo := le_antisymm (range.greatest.2 member) (range.least.2 member)
    rw [equal first, equal second]

end Ranges

/-! ### Rescaled values -/

/-- What becomes of a value in a window of such values, where the range of the closes is from `lo` to `hi`. -/
structure IsRescaled (window : List α) (value lo hi rescaled : α) : Prop where
  above : lo ≤ rescaled
  below : rescaled ≤ hi
  least : ¬IsFlat window → (∀ x ∈ window, value ≤ x) → rescaled = lo
  greatest : ¬IsFlat window → (∀ x ∈ window, x ≤ value) → rescaled = hi
  flat : IsFlat window → rescaled = (lo + hi) / 2

theorem exists_isRescaled {window : List α} {value bottom top lo hi : α} (member : value ∈ window)
    (source : IsRange window bottom top) (target : lo ≤ hi) :
    ∃ y, mapRange (some value) (some top) (some bottom) (some lo) (some hi) = .ok y ∧
      IsRescaled window value lo hi y := by
  have lower : bottom ≤ value := source.least.2 member
  have upper : value ≤ top := source.greatest.2 member
  rw [mapRange]
  by_cases level : bottom = top
  · have flat : IsFlat window := source.isFlat_iff.mpr level
    refine ⟨(hi + lo) / 2, ?_, ⟨by linarith, by linarith, absurd flat, absurd flat, fun _ => by rw [add_comm]⟩⟩
    rw [if_pos (same_iff.mpr level.symm), two_eq]
    rfl
  · have rough : ¬IsFlat window := fun flat => level (source.isFlat_iff.mp flat)
    have width : 0 < top - bottom := sub_pos.mpr (lt_of_le_of_ne (lower.trans upper) level)
    -- the share of the way from the bottom to the top
    have share : 0 ≤ (value - bottom) / (top - bottom) := div_nonneg (sub_nonneg.mpr lower) width.le
    have most : (value - bottom) / (top - bottom) ≤ 1 := (div_le_one width).mpr (by linarith)
    have mapped : (hi - lo) * (value - bottom) / (top - bottom) + lo =
        lo + (value - bottom) / (top - bottom) * (hi - lo) := by ring
    refine ⟨(hi - lo) * (value - bottom) / (top - bottom) + lo, ?_, ?_⟩
    · rw [if_neg fun same => level (same_iff.mp same).symm]
      simp only [sub?, add?, ok_bind, div?_eq _ width.ne']
    · rw [mapped]
      refine ⟨?_, ?_, fun _ least => ?_, fun _ greatest => ?_, fun flat => absurd flat rough⟩
      · nlinarith
      · nlinarith
      · rw [le_antisymm (least bottom source.least.1) lower, sub_self, zero_div, zero_mul, add_zero]
      · rw [le_antisymm upper (greatest top source.greatest.1), div_self width.ne', one_mul, add_sub_cancel]

section Curves
variable {raw closes curve : List α} {window : Int}

/-- A curve over the bars from the first whole window on, rescaled into the range of the last closes. -/
def IsWithin (raw closes : List α) (window : Int) (curve : List α) : Prop :=
  ∀ i : Nat, window ≤ i → i < closes.length → ∃ value y lo hi, raw[i]? = some value ∧ curve[i]? = some y ∧
    IsRange (trailing window.toNat closes i) lo hi ∧ IsRescaled (trailing window.toNat raw i) value lo hi y

theorem exists_rescaleAt (whole : raw.length = closes.length) (valid : 1 ≤ window) {i : Nat} (first : window ≤ i)
    (inside : i < closes.length) : ∃ value y lo hi, raw[i]? = some value ∧
      rescaleAt? raw (highest raw window) (lowest raw window) (highest closes window) (lowest closes window) i =
        .ok y ∧
      IsRange (trailing window.toNat closes i) lo hi ∧ IsRescaled (trailing window.toNat raw i) value lo hi y := by
  have here : raw[i]? = some raw[i] := List.getElem?_eq_getElem (by omega)
  obtain ⟨bottom, top, bottoms, tops, source⟩ :=
    exists_isRange valid (by omega : window ≤ i + 1) (by omega : i < raw.length)
  obtain ⟨lo, hi, lows, highs, target⟩ := exists_isRange valid (by omega : window ≤ i + 1) inside
  have member : raw[i] ∈ trailing window.toNat raw i := mem_trailing.mpr ⟨i, by omega, Nat.le_refl i, here⟩
  obtain ⟨y, mapped, law⟩ := exists_isRescaled member source (target.least.2 target.greatest.1)
  refine ⟨raw[i], y, lo, hi, here, ?_, target, law⟩
  simp only [rescaleAt?, entry?_natCast here, bottoms, tops, lows, highs, ok_bind, mapped]

theorem exists_rescale (whole : raw.length = closes.length) (valid : 1 ≤ window) :
    ∃ curve, rescale raw closes window = .ok curve ∧ curve.length = closes.length ∧
      IsWithin raw closes window curve := by
  obtain ⟨scaled, swept⟩ : ∃ scaled, sweepUpTo (rescaleAt? raw (highest raw window) (lowest raw window)
      (highest closes window) (lowest closes window)) window raw.length = .ok scaled := by
    rw [sweepUpTo_eq_mapM]
    refine mapM_ok_of_forall fun k member => ?_
    have := List.mem_range.mp member
    have place : window + k = (window.toNat + k : Nat) := by omega
    obtain ⟨-, y, -, -, -, done, -⟩ :=
      exists_rescaleAt whole valid (i := window.toNat + k) (by omega) (by omega)
    exact ⟨y, place ▸ done⟩
  have nonneg : 0 ≤ window := by omega
  refine ⟨padded window raw.length 0.0 scaled, ?_, (length_padded nonneg (length_sweepUpTo swept)).trans whole, ?_⟩
  · rw [rescale, swept]
    rfl
  · intro i first inside
    obtain ⟨value, y, lo, hi, here, done, law⟩ := exists_rescaleAt whole valid first inside
    obtain ⟨z, again, found⟩ := getElem?_sweepUpTo swept first (by omega)
    obtain rfl := Except.ok.inj (again.symm.trans done)
    exact ⟨value, z, lo, hi, here, (getElem?_padded nonneg first (by omega)).trans found, law⟩

end Curves

/-! ### Trading by price -/

section Trades
variable {raw : List α} {history : History α} {window : Int} {curve : List α}

/-- What a curve within the range of the closes calls for at a bar. -/
theorem viewAt_of_isWithin (within : IsWithin raw history.closes window curve) (prediction : List α) {i : Nat}
    {c : Candle α} (first : window ≤ i) (here : history.candles[i]? = some c) :
    ∃ called, viewAt true curve prediction i c.close = .ok called ∧ called ≠ some .hold ∧
      (called = some .short → ∃ y ∈ trailing window.toNat history.closes i, c.close < y) ∧
      (called = some .long → ∃ y ∈ trailing window.toNat history.closes i, y < c.close) := by
  have inside : i < history.closes.length := by
    rw [history.length_closes]
    exact (List.getElem?_eq_some_iff.mp here).1
  obtain ⟨value, y, lo, hi, -, found, range, law⟩ := within i first inside
  refine ⟨priceView c.close y, ?_, ?_⟩
  · simp only [viewAt, entry?_natCast found, ok_bind, if_true]
    rfl
  · rw [priceView]
    split
    · rename_i below
      exact ⟨by simp, fun _ => ⟨hi, range.greatest.1, (lt_iff.mp below).trans_le law.below⟩, by simp⟩
    · split
      · rename_i above
        exact ⟨by simp, by simp, fun _ => ⟨lo, range.least.1, law.above.trans_lt (gt_iff.mp above)⟩⟩
      · exact ⟨by simp, by simp, by simp⟩

/-- A window of one close calls for nothing. -/
theorem viewAt_of_single (within : IsWithin raw history.closes 1 curve) (prediction : List α) {i : Nat} {c : Candle α}
    (first : 1 ≤ i) (here : history.candles[i]? = some c) : viewAt true curve prediction i c.close = .ok none := by
  have close : history.closes[i]? = some c.close := by rw [History.closes, List.getElem?_map, here, Option.map_some]
  have only {y : α} (member : y ∈ trailing (1 : Int).toNat history.closes i) : y = c.close :=
    List.mem_singleton.mp (trailing_one close ▸ member)
  obtain ⟨called, seen, held, short, long⟩ := viewAt_of_isWithin within prediction (by omega : (1 : Int) ≤ i) here
  rw [seen]
  rcases called with _ | _ | _ | _
  · rfl
  · exact absurd rfl held
  · obtain ⟨y, member, below⟩ := long rfl
    exact absurd (only member) below.ne
  · obtain ⟨y, member, above⟩ := short rfl
    exact absurd (only member) above.ne'

/-- Markers that never enter a position against the range of the last closes. -/
structure TradesWithin (history : History α) (window : Int) (markers : List (Marker α)) : Prop where
  top : ∀ (i : Nat) c, history.candles[i]? = some c →
    (∀ y ∈ trailing window.toNat history.closes i, y ≤ c.close) → ∀ m ∈ markers, m.time = c.time → m.signal ≠ .sell
  bottom : ∀ (i : Nat) c, history.candles[i]? = some c →
    (∀ y ∈ trailing window.toNat history.closes i, c.close ≤ y) → ∀ m ∈ markers, m.time = c.time → m.signal ≠ .buy
  single : window = 1 → markers = []

variable {config : LogisticConfig α}

theorem exists_markers (price : config.usePrice = true)
    (within : IsWithin raw history.closes config.normalization curve) (size : curve.length = history.length)
    (prediction : List α) :
    ∃ markers, config.markers history curve prediction = .ok markers ∧
      TradesWithin history config.normalization markers := by
  obtain ⟨markers, walked⟩ : ∃ markers, config.markers history curve prediction = .ok markers := by
    refine Trader.walk_ok _ _ _ fun j close first last => ?_
    rw [List.length_drop] at last
    have count : history.length = history.candles.length := rfl
    obtain ⟨y, found⟩ := entry?_ok (by omega : 0 ≤ j) (by omega : j < curve.length)
    simp only [price, viewAt, found, ok_bind, if_true]
    exact ⟨_, rfl⟩
  have entered {i : Nat} {c : Candle α} {m : Marker α} {p : Position} (here : history.candles[i]? = some c)
      (member : m ∈ markers) (time : m.time = c.time) (entry : m.signal.entered = some p) :
      (p = .short → ∃ y ∈ trailing config.normalization.toNat history.closes i, c.close < y) ∧
        (p = .long → ∃ y ∈ trailing config.normalization.toNat history.closes i, y < c.close) := by
    obtain ⟨first, call⟩ := LogisticConfig.called_of_mem_markers walked member entry here time
    obtain ⟨called, seen, -, short, long⟩ := viewAt_of_isWithin within prediction first here
    rw [price, seen, Except.ok.injEq] at call
    exact ⟨fun same => short (same ▸ call), fun same => long (same ▸ call)⟩
  refine ⟨markers, walked, fun i c here most m member time sells => ?_, fun i c here least m member time buys => ?_,
    fun single => ?_⟩
  · obtain ⟨y, inWindow, above⟩ := (entered here member time (congrArg Signal.entered sells)).1 rfl
    exact absurd above (most y inWindow).not_gt
  · obtain ⟨y, inWindow, below⟩ := (entered here member time (congrArg Signal.entered buys)).2 rfl
    exact absurd below (least y inWindow).not_gt
  · have quiet : config.markers history curve prediction = .ok [] := by
      refine Trader.walk_of_silent _ fun k c found => ?_
      rw [List.getElem?_drop] at found
      have place : max config.normalization 1 + k = ((max config.normalization 1).toNat + k : Nat) := by omega
      rw [price, place]
      exact viewAt_of_single (single ▸ within) prediction (by omega) found
    exact Except.ok.inj (walked.symm.trans quiet)

end Trades

end Exact

open Exact

/-- A curve that is rescaled exactly lies within the range of the last closes at each bar with enough bars before it:
at the lowest where its value is the lowest of the last ones, at the highest where it is the highest and in the middle
where they are all the same. A trader that goes by price is held by that range, and does not trade at all where the
range is that of a single close. -/
theorem rescale_within {α : Type} [Exact α] {raw closes : List α} {window : Int} (whole : raw.length = closes.length)
    (valid : 1 ≤ window) :
    ∃ curve, rescale raw closes window = .ok curve ∧ IsWithin raw closes window curve ∧
      ∀ (history : History α) (config : LogisticConfig α) (prediction : List α), history.closes = closes →
        config.normalization = window → config.usePrice = true →
        ∃ markers, config.markers history curve prediction = .ok markers ∧ TradesWithin history window markers := by
  obtain ⟨curve, h, size, within⟩ := exists_rescale whole valid
  refine ⟨curve, h, within, ?_⟩
  rintro history config prediction rfl rfl price
  exact exists_markers price within (size.trans history.length_closes) prediction

/-- A curve that is highest where the closes are lowest. -/
theorem rescale_within_of_opposed :
    ([1, 4, 2, 3] : List ℝ).length = ([5, 1, 3, 2] : List ℝ).length ∧ (1 : Int) ≤ 2 ∧
      ∃ curve, rescale ([1, 4, 2, 3] : List ℝ) [5, 1, 3, 2] 2 = .ok curve ∧
        IsWithin ([1, 4, 2, 3] : List ℝ) [5, 1, 3, 2] 2 curve ∧
        ∃ markers, ({ } : LogisticConfig ℝ).markers (bars [5, 1, 3, 2]) curve [] = .ok markers ∧
          TradesWithin (bars [5, 1, 3, 2]) 2 markers := by
  have whole : ([1, 4, 2, 3] : List ℝ).length = ([5, 1, 3, 2] : List ℝ).length := rfl
  have valid : (1 : Int) ≤ 2 := by decide
  obtain ⟨curve, h, within, trades⟩ := rescale_within whole valid
  exact ⟨whole, valid, curve, h, within, trades (bars [5, 1, 3, 2]) { } [] (closes_bars _) rfl rfl⟩

end ChartOverlay
