import ChartOverlay.Indicator.Oscillator
import ChartOverlay.Proofs.DoubleLaws

/-!
# Sums of doubles

A sum of many doubles is added up in an order of its own, but every entry goes into it once. What addition keeps, also
of the number of entries, holds of the sum whatever the order: `sum_counted`. So the sum of squares under the root of a
deviation is never below zero.
-/

namespace ChartOverlay

open Arith

section Counted
variable {α : Type} [Arith α] {p : Nat → α → Prop}

theorem addAll_counted (add : ∀ i j x y, p i x → p j y → p (i + j) (x + y)) {n : Nat} {seed : α} {xs : List α}
    (first : p n seed) (all : ∀ x ∈ xs, p 1 x) : p (n + xs.length) (addAll seed xs) := by
  induction xs generalizing n seed with
  | nil => exact first
  | cons x xs ih =>
    have later := ih (add n 1 seed x first (all x List.mem_cons_self)) fun y member =>
      all y (List.mem_cons_of_mem x member)
    rwa [Nat.add_assoc, Nat.add_comm 1] at later

theorem zipWith_add_counted (add : ∀ i j x y, p i x → p j y → p (i + j) (x + y)) {n : Nat} {xs ys : List α}
    (left : ∀ x ∈ xs, p n x) (right : ∀ y ∈ ys, p 1 y) : ∀ z ∈ List.zipWith (· + ·) xs ys, p (n + 1) z := by
  intro z member
  rw [← List.map_uncurry_zip_eq_zipWith] at member
  obtain ⟨⟨x, y⟩, pair, rfl⟩ := List.mem_map.mp member
  obtain ⟨inLeft, inRight⟩ := List.of_mem_zip pair
  exact add n 1 x y (left x inLeft) (right y inRight)

/-- Every row adds one entry to each of the eight columns. -/
theorem columns_counted (add : ∀ i j x y, p i x → p j y → p (i + j) (x + y)) {n : Nat} {sums xs : List α}
    (first : ∀ x ∈ sums, p n x) (all : ∀ x ∈ xs, p 1 x) :
    ∃ rows, (∀ x ∈ (columns sums xs).1, p rows x) ∧ (∀ x ∈ (columns sums xs).2, p 1 x) ∧
      8 * rows + (columns sums xs).2.length = 8 * n + xs.length := by
  fun_induction columns sums xs generalizing n with
  | case1 sums a b c d e f g h rest ih =>
    have row : ∀ x ∈ [a, b, c, d, e, f, g, h], p 1 x := fun x member => all x (List.mem_append_left rest member)
    have later : ∀ x ∈ rest, p 1 x := fun x member => all x (List.mem_append_right [a, b, c, d, e, f, g, h] member)
    obtain ⟨rows, sums, left, count⟩ := ih (zipWith_add_counted add first row) later
    refine ⟨rows, sums, left, ?_⟩
    simp only [List.length_cons]
    omega
  | case2 => exact ⟨n, first, all, rfl⟩

theorem blockSum_counted (add : ∀ i j x y, p i x → p j y → p (i + j) (x + y)) (zero : p 0 0.0) {xs : List α}
    (long : 8 ≤ xs.length) (all : ∀ x ∈ xs, p 1 x) : p xs.length (blockSum xs) := by
  have row : ∀ x ∈ xs.take 8, p 1 x := fun x member => all x (List.mem_of_mem_take member)
  have rest : ∀ x ∈ xs.drop 8, p 1 x := fun x member => all x (List.mem_of_mem_drop member)
  obtain ⟨rows, sums, left, count⟩ := columns_counted add row rest
  rw [List.length_drop] at count
  unfold blockSum
  dsimp only
  split
  · rename_i a b c d e f g h read
    rw [read] at sums
    simp only [List.forall_mem_cons] at sums
    obtain ⟨pa, pb, pc, pd, pe, pf, pg, ph, -⟩ := sums
    have pairs := add _ _ _ _ (add _ _ _ _ (add _ _ _ _ pa pb) (add _ _ _ _ pc pd))
      (add _ _ _ _ (add _ _ _ _ pe pf) (add _ _ _ _ pg ph))
    have whole := addAll_counted add pairs left
    have size : rows + rows + (rows + rows) + (rows + rows + (rows + rows)) +
        (columns (xs.take 8) (xs.drop 8)).2.length = xs.length := by omega
    rwa [size] at whole
  · have whole := addAll_counted add zero all
    rwa [Nat.zero_add] at whole

/-- What holds of zeros as sums of no entry and of the entries as sums of one, and is kept where two sums are added,
holds of a sum and its number of entries. -/
theorem sum_counted (add : ∀ i j x y, p i x → p j y → p (i + j) (x + y)) (zero : p 0 0.0) (negative : p 0 (-0.0))
    {xs : List α} (all : ∀ x ∈ xs, p 1 x) : p xs.length (sum xs) := by
  suffices whole : p xs.length (pairwiseSum xs) by
    have started := add _ _ _ _ zero whole
    rwa [Nat.zero_add] at started
  fun_induction pairwiseSum xs with
  | case1 xs =>
    have whole := addAll_counted add negative all
    rwa [Nat.zero_add] at whole
  | case2 xs long => exact blockSum_counted add zero (Nat.le_of_not_lt long) all
  | case3 xs _ _ left right =>
    have halves := add _ _ _ _ (left fun x member => all x (List.mem_of_mem_take member))
      (right fun x member => all x (List.mem_of_mem_drop member))
    rwa [← List.length_append, List.take_append_drop] at halves

/-- What holds of zeros and of the entries, and is kept by addition, holds of a sum. -/
theorem sum_closed {p : α → Prop} (add : ∀ x y, p x → p y → p (x + y)) (zero : p 0.0) (negative : p (-0.0))
    {xs : List α} (all : ∀ x ∈ xs, p x) : p (sum xs) :=
  sum_counted (p := fun _ => p) (fun _ _ => add) zero negative all

end Counted

/-! ### Roots -/

/-- What a deviation is the root of. -/
def radicand {α : Type} [Arith α] (n : Int) (window : List α) : α :=
  sum (window.map fun x => (x - mean window) * (x - mean window)) / ofInt n

theorem deviation_eq {α : Type} [Arith α] (n : Int) (window : List α) :
    deviation n window = sqrt (radicand n window) := rfl

namespace Double

/-- No deviation takes the root of something below zero. -/
theorem radicand_not_lt_zero {n : Int} (h : 0 ≤ n) (window : List Float) :
    lt (radicand n window) 0.0 = false := by
  refine div_not_lt_zero ?_ (ofInt_sign h)
  refine sum_closed (p := fun x => lt x 0.0 = false) (fun x y => add_not_lt_zero) rfl rfl ?_
  intro square member
  obtain ⟨x, -, rfl⟩ := List.mem_map.mp member
  exact mul_self_not_lt_zero _

end Double

end ChartOverlay
