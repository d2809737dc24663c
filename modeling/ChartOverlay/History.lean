import ChartOverlay.Candle

/-!
# Candle histories

A history is a list of candles in strictly increasing order of time. `History.ofCandles?` accepts
exactly those lists and otherwise reports the first neighbours that are out of order.
-/

namespace ChartOverlay

/-- The times of two neighbouring candles of which the second is not later. -/
structure Disorder where
  earlier : Int
  later : Int
  deriving Repr, DecidableEq

namespace Disorder

def message (d : Disorder) : String :=
  s!"Candle times must be strictly increasing: {d.earlier} then {d.later}"

variable {α : Type}

def first? : List (Candle α) → Option Disorder
  | a :: b :: rest => if b.time ≤ a.time then some ⟨a.time, b.time⟩ else first? (b :: rest)
  | _ => none

theorem pairwise_of_first?_eq_none {candles : List (Candle α)} (h : first? candles = none) :
    candles.Pairwise (·.time < ·.time) := by
  induction candles with
  | nil => exact .nil
  | cons a rest ih =>
    cases rest with
    | nil => exact List.pairwise_singleton _ _
    | cons b rest =>
      rw [first?] at h
      split at h
      · contradiction
      · rename_i later
        have tail := ih h
        refine List.pairwise_cons.mpr ⟨fun c hc => ?_, tail⟩
        rcases List.mem_cons.mp hc with rfl | hc
        · omega
        · have := (List.pairwise_cons.mp tail).1 c hc
          omega

end Disorder

structure History (α : Type) where
  candles : List (Candle α)
  ordered : candles.Pairwise (·.time < ·.time)

namespace History

variable {α : Type}

/-- A history of the candles as listed, if their times are strictly increasing. -/
def ofCandles? (candles : List (Candle α)) : Except Disorder (History α) :=
  match h : Disorder.first? candles with
  | none => .ok ⟨candles, Disorder.pairwise_of_first?_eq_none h⟩
  | some d => .error d

def length (history : History α) : Nat := history.candles.length

def times (history : History α) : List Int := history.candles.map (·.time)

def closes (history : History α) : List α := history.candles.map (·.close)

theorem length_times (history : History α) : history.times.length = history.length := List.length_map _

theorem length_closes (history : History α) : history.closes.length = history.length := List.length_map _

end History

end ChartOverlay
