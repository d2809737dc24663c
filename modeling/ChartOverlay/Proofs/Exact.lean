import Mathlib
import ChartOverlay.Proofs.Partial
import ChartOverlay.Proofs.Sums

/-!
# Exact arithmetic

The formulas of the library read over an ordered field are exact: nothing is rounded, every number is finite and
the order of additions does not matter (`sum_eq`). A root, an exponential and a logarithm are taken from outside;
that a root is one is the hypothesis `HasRoots`, and the real numbers have it.
-/

namespace ChartOverlay

open Arith

/-- Numbers that are calculated with exactly. Of the root, the exponential and the logarithm nothing is assumed. -/
class Exact (α : Type) extends Field α, LinearOrder α, IsStrictOrderedRing α, FloorRing α where
  root : α → α
  exponential : α → α
  logarithm : α → α

noncomputable instance : Exact ℝ where
  root := Real.sqrt
  exponential := Real.exp
  logarithm := Real.log

namespace Exact

variable {α : Type} [Exact α]

instance : Arith α where
  sqrt := root
  exp := exponential
  log := logarithm
  ofRatio p q := p / q
  floor := Int.floor
  trunc x := if 0 ≤ x then ⌊x⌋ else ⌈x⌉
  lt x y := decide (x < y)
  eq x y := decide (x = y)
  isNaN _ := false
  isFinite _ := true

/-- Whether the root is the one that is not negative. -/
structure HasRoots (α : Type) [Exact α] : Prop where
  nonneg : ∀ x : α, 0 ≤ sqrt x
  square : ∀ {x : α}, 0 ≤ x → sqrt x * sqrt x = x

theorem HasRoots.sqrt_eq (law : HasRoots α) {x y : α} (nonneg : 0 ≤ y) (square : y * y = x) : sqrt x = y := by
  subst square
  exact (mul_self_inj (law.nonneg _) nonneg).mp (law.square (mul_self_nonneg y))

theorem HasRoots.sqrt_pos (law : HasRoots α) {x : α} (pos : 0 < x) : 0 < sqrt x := by
  refine lt_of_le_of_ne (law.nonneg x) fun zero => pos.ne ?_
  rw [← law.square pos.le, ← zero, mul_zero]

theorem hasRoots_real : HasRoots ℝ where
  nonneg := Real.sqrt_nonneg
  square := Real.mul_self_sqrt

/-! ### Comparing -/

section Comparing
variable {x y : α}

@[simp] theorem lt_iff : lt x y = true ↔ x < y := decide_eq_true_iff

@[simp] theorem gt_iff : gt x y = true ↔ y < x := decide_eq_true_iff

@[simp] theorem eq_iff : eq x y = true ↔ x = y := decide_eq_true_iff

@[simp] theorem le_iff : le x y = true ↔ x ≤ y := by
  rw [le, Bool.or_eq_true, lt_iff, eq_iff, le_iff_lt_or_eq]

theorem same_iff : same (some x) (some y) = true ↔ x = y := eq_iff

end Comparing

/-! ### Numbers -/

@[simp] theorem zero_eq : (0.0 : α) = 0 := by norm_num

@[simp] theorem negative_zero_eq : (-0.0 : α) = 0 := by norm_num

@[simp] theorem one_eq : (1.0 : α) = 1 := by norm_num

@[simp] theorem two_eq : (2.0 : α) = 2 := by norm_num

@[simp] theorem three_eq : (3.0 : α) = 3 := by norm_num

@[simp] theorem hundred_eq : (100.0 : α) = 100 := by norm_num

@[simp] theorem ofRatio_eq (p q : Int) : (ofRatio p q : α) = p / q := rfl

@[simp] theorem ofInt_eq (n : Int) : (ofInt n : α) = n := by
  rw [ofInt, ofRatio_eq, Int.cast_one, div_one]

@[simp] theorem isZero_iff {x : α} : isZero x = true ↔ x = 0 := by
  rw [isZero, eq_iff, zero_eq]

theorem isZero_eq_false_iff {x : α} : isZero x = false ↔ x ≠ 0 := by
  rw [← Bool.not_eq_true, isZero_iff]

/-! ### Checked operations -/

theorem ofInt?_eq (n : Int) : (ofInt? n : Except Fault α) = .ok (n : α) := by
  rw [← ofInt_eq]
  rfl

theorem ratio?_eq (p : Int) {q : Int} (apart : q ≠ 0) : (ratio? p q : Except Fault α) = .ok (p / q : α) :=
  if_neg apart

theorem div?_eq (x : α) {y : α} (apart : y ≠ 0) : div? x y = .ok (x / y) := by
  rw [div?, isZero_eq_false_iff.mpr apart]
  rfl

theorem floor?_eq (x : α) : floor? x = .ok ⌊x⌋ := rfl

/-! ### Sums -/

theorem addAll_eq (seed : α) (xs : List α) : addAll seed xs = seed + xs.sum := by
  induction xs generalizing seed with
  | nil => rw [List.sum_nil, add_zero, addAll, List.foldl_nil]
  | cons x xs ih =>
    rw [List.sum_cons, ← add_assoc]
    exact ih (seed + x)

theorem total_eq (xs : List α) : total xs = xs.sum := by
  rw [total, addAll_eq, zero_eq, zero_add]

/-- The columns and what is left add up to what went in. -/
theorem columns_eq {sums xs : List α} (full : sums.length = 8) :
    (columns sums xs).1.sum + (columns sums xs).2.sum = sums.sum + xs.sum := by
  fun_induction columns sums xs with
  | case1 sums a b c d e f g h rest ih =>
    have more : (List.zipWith (· + ·) sums [a, b, c, d, e, f, g, h]).length = 8 := by
      rw [List.length_zipWith, full]
      rfl
    have row := List.sum_add_sum_eq_sum_zipWith_of_length_eq sums [a, b, c, d, e, f, g, h] full
    rw [ih more, ← row]
    simp only [List.sum_cons, List.sum_nil]
    ring
  | case2 => rfl

theorem blockSum_eq {xs : List α} (long : 8 ≤ xs.length) : blockSum xs = xs.sum := by
  have row : (xs.take 8).length = 8 := by rw [List.length_take, Nat.min_eq_left long]
  have kept : _ = xs.sum := (columns_eq row).trans (by rw [← List.sum_append, List.take_append_drop])
  unfold blockSum
  dsimp only
  split
  · rename_i a b c d e f g h sums
    rw [sums] at kept
    rw [addAll_eq, ← kept]
    simp only [List.sum_cons, List.sum_nil]
    ring
  · rw [addAll_eq, zero_eq, zero_add]

theorem pairwiseSum_eq (xs : List α) : pairwiseSum xs = xs.sum := by
  fun_induction pairwiseSum xs with
  | case1 xs => rw [addAll_eq, negative_zero_eq, zero_add]
  | case2 xs long => exact blockSum_eq (Nat.le_of_not_lt long)
  | case3 xs _ _ left right => rw [left, right, ← List.sum_append, List.take_append_drop]

@[simp] theorem sum_eq (xs : List α) : sum xs = xs.sum := by
  rw [sum, pairwiseSum_eq, zero_eq, zero_add]

/-- The sum of the first entries, by their places. -/
theorem sum_take {xs : List α} {entry : Nat → α} {n : Nat} (entries : ∀ k < n, xs[k]? = some (entry k)) :
    (xs.take n).sum = ∑ k ∈ Finset.range n, entry k := by
  induction n with
  | zero => rfl
  | succ n ih =>
    rw [List.take_add_one, entries n (Nat.lt_succ_self n), Option.toList_some, List.sum_append, List.sum_singleton,
      ih fun k inside => entries k (Nat.lt_succ_of_lt inside), Finset.sum_range_succ]

@[simp] theorem mean_eq (xs : List α) : mean xs = xs.sum / xs.length := by
  rw [mean, sum_eq, ofInt_eq, Int.cast_natCast]

end Exact

end ChartOverlay
