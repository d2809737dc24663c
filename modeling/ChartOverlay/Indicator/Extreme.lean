import ChartOverlay.Arith.Fault
import ChartOverlay.Indicator.Window

/-!
# Extremes of a window

The highest and lowest value of the last `period` values, and how many bars ago it occurred. A value
that is not a number counts as more extreme than every number. Of equal extremes the most recent one
counts, which shows in the sign of a zero.
-/

namespace ChartOverlay

open Arith

variable {α : Type} [Arith α]

/-- The extreme of `best` and the list by `beats`; the first value that is not a number wins. -/
def extremeFrom (beats : α → α → Bool) (best : α) : List α → α
  | [] => best
  | x :: xs => if isNaN best then best else extremeFrom beats (if beats best x then best else x) xs

/-- The position of the extreme in a list whose positions count from `k` on; `best` stands at `age`. -/
def extremeAgeFrom (beats : α → α → Bool) (best : α) (age k : Nat) : List α → Nat
  | [] => age
  | x :: xs =>
    if isNaN best then age
    else if isNaN x || beats x best then extremeAgeFrom beats x k (k + 1) xs
    else extremeAgeFrom beats best age (k + 1) xs

def extreme? (beats : α → α → Bool) : List α → Option α
  | [] => none
  | x :: xs => defined (extremeFrom beats x xs)

/-- How far from the end of a window its extreme stands. -/
def extremeAge? (beats : α → α → Bool) (window : List α) : Option Nat :=
  match window.reverse with
  | [] => none
  | x :: xs => some (extremeAgeFrom beats x 0 1 xs)

def highest (values : List α) (period : Int) : List (Option α) := rolling period (extreme? gt) values

def lowest (values : List α) (period : Int) : List (Option α) := rolling period (extreme? lt) values

def highestBars (values : List α) (period : Int) : List (Option Nat) :=
  rolling period (extremeAge? gt) values

def lowestBars (values : List α) (period : Int) : List (Option Nat) :=
  rolling period (extremeAge? lt) values

end ChartOverlay
