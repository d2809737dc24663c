import ChartOverlay.Arith.Basic

/-!
# Sums and means

Floating-point addition is not associative, so the order of additions is part of what a sum is.
`Arith.sum` halves long lists and adds short ones in eight interleaved columns; `Arith.total` adds
from left to right.
-/

namespace ChartOverlay.Arith

variable {α : Type} [Arith α]

/-- Adds the entries to `seed` from left to right. -/
def addAll (seed : α) (xs : List α) : α := xs.foldl (· + ·) seed

def total (xs : List α) : α := addAll 0.0 xs

/-- The sums of the columns when each full row of eight is added to the row of sums so far, with
what is left of the list. -/
def columns (sums : List α) : List α → List α × List α
  | a :: b :: c :: d :: e :: f :: g :: h :: rest =>
    columns (List.zipWith (· + ·) sums [a, b, c, d, e, f, g, h]) rest
  | rest => (sums, rest)

/-- A block of at least eight entries: the eight columns in pairs, then what is left. -/
def blockSum (xs : List α) : α :=
  let (sums, rest) := columns (xs.take 8) (xs.drop 8)
  match sums with
  | [a, b, c, d, e, f, g, h] => addAll (((a + b) + (c + d)) + ((e + f) + (g + h))) rest
  | _ => addAll 0.0 xs

/-- Where a long list is halved: at the greatest multiple of eight up to its middle. -/
def halfway (n : Nat) : Nat := n / 2 - n / 2 % 8

theorem halfway_pos {n : Nat} (h : 128 < n) : 0 < halfway n := by
  unfold halfway; omega

theorem halfway_lt {n : Nat} (h : 128 < n) : halfway n < n := by
  unfold halfway; omega

/-- The sum of a list, less the zero it starts from. -/
def pairwiseSum (xs : List α) : α :=
  if xs.length < 8 then addAll (-0.0) xs
  else if _ : xs.length ≤ 128 then blockSum xs
  else
    pairwiseSum (xs.take (halfway xs.length)) + pairwiseSum (xs.drop (halfway xs.length))
termination_by xs.length
decreasing_by
  · have := halfway_lt (Nat.lt_of_not_le ‹_›)
    simp only [List.length_take]; omega
  · have := halfway_pos (Nat.lt_of_not_le ‹_›)
    simp only [List.length_drop]; omega

def sum (xs : List α) : α := 0.0 + pairwiseSum xs

def mean (xs : List α) : α := sum xs / ofInt xs.length

end ChartOverlay.Arith
