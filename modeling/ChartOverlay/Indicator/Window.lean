/-!
# Rolling windows

An indicator has one entry per value; entries where it is not defined are `none`. Most indicators
are a function of the last `period` values.
-/

namespace ChartOverlay

variable {α β γ : Type}

/-- Up to `n` values ending at position `i`, oldest first. -/
def trailing (n : Nat) (xs : List α) (i : Nat) : List α := (xs.take (i + 1)).drop (i + 1 - n)

/-- `f` of the last `period` values at every position that has so many. -/
def rolling (period : Int) (f : List α → Option β) (xs : List α) : List (Option β) :=
  (List.range xs.length).map fun (i : Nat) =>
    if 1 ≤ period ∧ period ≤ i + 1 then f (trailing period.toNat xs i) else none

theorem length_rolling (period : Int) (f : List α → Option β) (xs : List α) :
    (rolling period f xs).length = xs.length := by
  simp [rolling]

/-- Two indicators combined, defined where both are. -/
def zipDefined (f : α → β → γ) (xs : List (Option α)) (ys : List (Option β)) : List (Option γ) :=
  List.zipWith (fun x y => x.bind fun x => y.map (f x)) xs ys

end ChartOverlay
