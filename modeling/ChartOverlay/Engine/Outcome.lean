import ChartOverlay.Arith.Fault
import ChartOverlay.Series

/-!
# What an engine returns

An engine draws at most one result and places markers on it. Engines walk over bar positions that a
caller may let start below zero; `sweep` visits them in order and stops at the first fault.
-/

namespace ChartOverlay

structure Outcome (α : Type) where
  indicator : Option (Result α) := none
  markers : List (Marker α) := []
  deriving Repr, DecidableEq

def Outcome.isEmpty {α : Type} (o : Outcome α) : Bool := o.indicator.isNone && o.markers.isEmpty

/-- The answers of `f` at `count` positions from `start` on. -/
def sweep {β : Type} (f : Int → Except Fault β) (start : Int) : Nat → Except Fault (List β)
  | 0 => .ok []
  | count + 1 => do
    let x ← f start
    return x :: (← sweep f (start + 1) count)

/-- The answers of `f` at the positions from `start` up to `stop`. -/
def sweepUpTo {β : Type} (f : Int → Except Fault β) (start : Int) (stop : Nat) : Except Fault (List β) :=
  sweep f start (stop - start).toNat

end ChartOverlay
