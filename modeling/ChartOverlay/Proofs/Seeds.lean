import ChartOverlay.Proofs.Averages

/-!
# Seeds of an average

Both exponential averages take the same share of each new value; the one starts from the mean of its first window, the
other from the first value. Over the values that both go through, the difference of two such averages shrinks by the
same factor at each (`foldl_blend_sub`), and nothing else of the seeds is left: `ema_sub_emaContinuous`.
-/

namespace ChartOverlay

open Arith

namespace Exact

variable {α : Type} [Exact α] {values : List α} {period : Int} {k : α} {n n' m i : Nat}

/-- Averages that go through the same values come closer by the same factor at each of them. -/
theorem foldl_blend_sub (k a b : α) (xs : List α) :
    xs.foldl (blend k) a - xs.foldl (blend k) b = (1 - k) ^ xs.length * (a - b) := by
  induction xs generalizing a b with
  | nil => rw [List.foldl_nil, List.foldl_nil, List.length_nil, pow_zero, one_mul]
  | cons x xs ih =>
    rw [List.foldl_cons, List.foldl_cons, ih, blend, blend, List.length_cons]
    ring

/-- From any bar on an average goes on from where it is. -/
theorem seeded_of_le (first : n ≤ m + 1) (last : m ≤ i) :
    seeded k n values i = ((values.take (i + 1)).drop (m + 1)).foldl (blend k) (seeded k n values m) := by
  have early : (values.take (i + 1)).take (m + 1) = values.take (m + 1) := by
    rw [List.take_take, Nat.min_eq_left (by omega)]
  have front : (values.take (m + 1)).drop n = ((values.take (i + 1)).drop n).take (m + 1 - n) := by
    rw [← early, List.drop_take]
  have back : (values.take (i + 1)).drop (m + 1) = ((values.take (i + 1)).drop n).drop (m + 1 - n) := by
    rw [List.drop_drop, Nat.add_sub_cancel' first]
  rw [seeded, seeded, front, back, ← List.foldl_append, List.take_append_drop]

theorem seeded_sub (first : n ≤ m + 1) (first' : n' ≤ m + 1) (last : m ≤ i) (inside : i < values.length) :
    seeded k n values i - seeded k n' values i = (1 - k) ^ (i - m) * (seeded k n values m - seeded k n' values m) := by
  have bars : ((values.take (i + 1)).drop (m + 1)).length = i - m := by
    rw [List.length_drop, List.length_take]
    omega
  rw [seeded_of_le first last, seeded_of_le first' last, foldl_blend_sub, bars]

/-- Averages that agree at a bar agree from there on. -/
theorem seeded_congr (first : n ≤ m + 1) (first' : n' ≤ m + 1) (last : m ≤ i)
    (same : seeded k n values m = seeded k n' values m) : seeded k n values i = seeded k n' values i := by
  rw [seeded_of_le first last, seeded_of_le first' last, same]

theorem seeded_seed (valid : 1 ≤ n) : seeded k n values (n - 1) = average (values.take n) := by
  rw [seeded, Nat.sub_add_cancel valid, List.drop_of_length_le (List.length_take_le n values), List.foldl_nil]

theorem getElem?_ema_of_whole (valid : 1 ≤ period) (whole : period ≤ i + 1) (inside : i < values.length) :
    (ema values period)[i]? = some (some (seeded (factor α period) period.toNat values i)) := by
  rw [getElem?_ema valid inside, if_pos (by omega)]

/-- An average over windows is the one over all values from a bar on where it equals that. -/
theorem ema_congr (valid : 1 ≤ period) {answers : List α} (size : answers.length = values.length)
    (entries : ∀ i < values.length, answers[i]? = some (seeded (factor α period) 1 values i))
    (whole : period ≤ m + 1) (last : m ≤ i)
    (same : seeded (factor α period) period.toNat values m = seeded (factor α period) 1 values m) :
    (ema values period)[i]? = (answers.map some)[i]? := by
  by_cases inside : i < values.length
  · rw [getElem?_ema_of_whole valid (by omega) inside, seeded_congr (by omega) (Nat.le_add_left 1 m) last same,
      List.getElem?_map, entries i inside, Option.map_some]
  · rw [List.getElem?_eq_none (by rw [length_ema]; omega), List.getElem?_eq_none (by rw [List.length_map]; omega)]

end Exact

open Exact

/-- Exactly calculated, the two exponential averages differ by their seeds alone: from the first whole window on what
is left of the difference there shrinks by the same factor at each bar. So they are the same where a window is one
bar, and go on the same where they once are. -/
theorem ema_sub_emaContinuous {α : Type} [Exact α] {period : Int} (valid : 1 ≤ period) {values : List α}
    (whole : period ≤ values.length) :
    ∃ answers seed, emaContinuous values period = .ok answers ∧ answers.length = values.length ∧
      answers[period.toNat - 1]? = some seed ∧
      (ema values period)[period.toNat - 1]? = some (some (average (values.take period.toNat))) ∧
      (∀ i : Nat, period ≤ i + 1 → i < values.length →
        ∃ x y, (ema values period)[i]? = some (some x) ∧ answers[i]? = some y ∧
          x - y = (1 - 2 / ((period : α) + 1)) ^ (i + 1 - period.toNat) *
            (average (values.take period.toNat) - seed)) ∧
      (period = 1 → ema values period = answers.map some) ∧
      ∀ (i j : Nat) (x : α), i ≤ j → (ema values period)[i]? = some (some x) → answers[i]? = some x →
        (ema values period)[j]? = (answers.map some)[j]? := by
  obtain ⟨answers, h, size, entries⟩ := exists_emaContinuous valid values
  have seed := getElem?_ema_of_whole valid (by omega : period ≤ (period.toNat - 1 : Nat) + 1)
    (by omega : period.toNat - 1 < values.length)
  rw [seeded_seed (by omega)] at seed
  refine ⟨answers, _, h, size, entries (period.toNat - 1) (by omega), seed, ?_, ?_, ?_⟩
  · intro i first inside
    have bars : i - (period.toNat - 1) = i + 1 - period.toNat := by omega
    refine ⟨_, _, getElem?_ema_of_whole valid first inside, entries i inside, ?_⟩
    rw [seeded_sub (by omega) (by omega) (by omega : period.toNat - 1 ≤ i) inside, seeded_seed (by omega), bars]
    rfl
  · rintro rfl
    exact List.ext_getElem? fun i => ema_congr valid size entries (Int.le_refl 1) (Nat.zero_le i) rfl
  · intro i j x later here here'
    have inside : i < values.length := size ▸ (List.getElem?_eq_some_iff.mp here').1
    have first : period ≤ i + 1 := by
      by_contra early
      rw [getElem?_ema valid inside, if_neg (by omega)] at here
      cases here
    rw [getElem?_ema_of_whole valid first inside] at here
    rw [entries i inside] at here'
    exact ema_congr valid size entries first later
      ((Option.some.inj (Option.some.inj here)).trans (Option.some.inj here').symm)

/-- Four values over windows of two: the difference at the last bar is a ninth of that at the first whole window. -/
theorem ema_sub_emaContinuous_of_four : (1 : Int) ≤ 2 ∧ (2 : Int) ≤ ([3, 1, 2, 5] : List ℝ).length ∧
    ∃ answers seed x y, emaContinuous ([3, 1, 2, 5] : List ℝ) 2 = .ok answers ∧ answers[1]? = some seed ∧
      (ema ([3, 1, 2, 5] : List ℝ) 2)[3]? = some (some x) ∧ answers[3]? = some y ∧
      x - y = (1 - 2 / (2 + 1)) ^ 2 * (average [3, 1] - seed) := by
  have valid : (1 : Int) ≤ 2 := by decide
  have whole : (2 : Int) ≤ ([3, 1, 2, 5] : List ℝ).length := by decide
  obtain ⟨answers, seed, h, -, first, -, bars, -⟩ := ema_sub_emaContinuous valid whole
  obtain ⟨x, y, windowed, continued, apart⟩ := bars 3 (by decide) (by decide)
  refine ⟨valid, whole, answers, seed, x, y, h, first, windowed, continued, ?_⟩
  rwa [Int.cast_ofNat] at apart

end ChartOverlay
