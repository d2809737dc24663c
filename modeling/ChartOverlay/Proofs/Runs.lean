import ChartOverlay.Engine.Logistic
import ChartOverlay.Proofs.Double
import ChartOverlay.Proofs.Partial

/-!
# Runs of a position

The walk of a trader keeps a position and a counter. Its markers have a closed form without either: the
position after a bar is what the last call up to the bar asked for, and a run of one position is entered
where it begins and left once, when it has lasted for the holding period. `walk_eq_runs` carries the
counter through the walk; `markers_eq_runs` is the closed form over doubles.
-/

namespace ChartOverlay

open Arith

variable {α : Type}

/-! ### Calls -/

/-- Whether the entries of two lists at bar `i` are there and related. -/
def relatedAt (r : α → α → Bool) (xs ys : List α) (i : Nat) : Bool :=
  match xs[i]?, ys[i]? with
  | some x, some y => r x y
  | _, _ => false

theorem relatedAt_eq (r : α → α → Bool) {xs ys : List α} {i : Nat} {x y : α} (left : xs[i]? = some x)
    (right : ys[i]? = some y) : relatedAt r xs ys i = r x y := by
  rw [relatedAt, left, right]

theorem relatedAt_asymm [Arith α] (asymm : ∀ {x y : α}, lt x y = true → lt y x = false) {xs ys : List α}
    {j : Nat} (below : relatedAt lt xs ys j = true) : relatedAt gt xs ys j = false := by
  unfold relatedAt at below ⊢
  split at below
  · exact asymm below
  · cases below

/-- Whether bar `j` calls for a position. By price that is a close strictly above or below the loss, else
a loss that is strictly above or below the prediction and was not so at the bar before. -/
def LogisticConfig.Calls [Arith α] (config : LogisticConfig α) (closes loss prediction : List α) (j : Nat) :
    Position → Prop
  | .hold => False
  | .long =>
    if config.usePrice then relatedAt gt closes loss j
    else relatedAt gt loss prediction j ∧ ¬relatedAt gt loss prediction (j - 1)
  | .short =>
    if config.usePrice then relatedAt lt closes loss j
    else relatedAt lt loss prediction j ∧ ¬relatedAt lt loss prediction (j - 1)

/-- The position after bar `i` is `p`: the last call from bar `start` on asked for it, or there was no
call and nothing is held. -/
def Prevails (calls : Nat → Position → Prop) (start i : Nat) (p : Position) : Prop :=
  (∃ j, start ≤ j ∧ j ≤ i ∧ calls j p ∧ ∀ k, j < k → k ≤ i → ∀ q, ¬calls k q) ∨
    p = .hold ∧ ∀ j, start ≤ j → j ≤ i → ∀ q, ¬calls j q

/-- The position after a bar, from what each bar calls for. -/
def positionAfter (call : Nat → Option Position) (start : Nat) : Nat → Position
  | 0 => .hold
  | i + 1 => if start ≤ i + 1 then (call (i + 1)).getD (positionAfter call start i) else .hold

section Prevails
variable {calls : Nat → Position → Prop} {call : Nat → Option Position} {start : Nat}

theorem prevails_positionAfter (early : 1 ≤ start) (exact : ∀ j p, call j = some p ↔ calls j p) (i : Nat) :
    Prevails calls start i (positionAfter call start i) := by
  have silent {j : Nat} (none : call j = none) (q : Position) : ¬calls j q := by
    intro called
    rw [(exact j q).mpr called] at none
    cases none
  induction i with
  | zero => exact Or.inr ⟨rfl, fun j _ _ => by omega⟩
  | succ i ih =>
    rw [positionAfter]
    split
    · rename_i inside
      cases here : call (i + 1) with
      | some p => exact Or.inl ⟨i + 1, inside, Nat.le_refl _, (exact _ _).mp here, fun k _ _ => by omega⟩
      | none =>
        rw [Option.getD_none]
        rcases ih with ⟨j, first, last, called, after⟩ | ⟨held, never⟩
        · refine Or.inl ⟨j, first, by omega, called, fun k later le => ?_⟩
          rcases Nat.lt_or_eq_of_le le with lt | rfl
          · exact after k later (by omega)
          · exact silent here
        · refine Or.inr ⟨held, fun k first le => ?_⟩
          rcases Nat.lt_or_eq_of_le le with lt | rfl
          · exact never k first (by omega)
          · exact silent here
    · exact Or.inr ⟨rfl, fun j _ _ => by omega⟩

theorem Prevails.unique {i : Nat} {p q : Position} (single : ∀ j p q, calls j p → calls j q → p = q)
    (one : Prevails calls start i p) (other : Prevails calls start i q) : p = q := by
  rcases one with ⟨j, first, last, called, after⟩ | ⟨rfl, never⟩ <;>
    rcases other with ⟨k, first', last', called', after'⟩ | ⟨rfl, never'⟩
  · rcases Nat.lt_trichotomy j k with lt | rfl | lt
    · exact (after k lt last' _ called').elim
    · exact single j p q called called'
    · exact (after' j lt last _ called).elim
  · exact (never' j first last _ called).elim
  · exact (never k first' last' _ called').elim
  · rfl

end Prevails

/-! ### Markers of a run -/

/-- The markers at a bar, if there is such a bar. -/
def atBar (candles : List (Candle α)) (bar : Nat) (draw : Candle α → List (Marker α)) : List (Marker α) :=
  match candles[bar]? with
  | some c => draw c
  | none => []

theorem atBar_eq {candles : List (Candle α)} {bar : Nat} {c : Candle α} (here : candles[bar]? = some c)
    (draw : Candle α → List (Marker α)) : atBar candles bar draw = draw c := by
  rw [atBar, here]

def entryMarkers (p : Position) (c : Candle α) : List (Marker α) :=
  match p with
  | .long => [⟨c.time, .buy, c.low⟩, ⟨c.time, .stopSell, c.low⟩]
  | .short => [⟨c.time, .sell, c.high⟩, ⟨c.time, .stopBuy, c.high⟩]
  | .hold => []

def exitMarkers (p : Position) (c : Candle α) : List (Marker α) :=
  match p with
  | .long => [⟨c.time, .stopBuy, c.high⟩]
  | .short => [⟨c.time, .stopSell, c.low⟩]
  | .hold => []

/-- The bars from `start` up to `stop` at which the position is not that of the bar before. -/
def changeBars (position : Nat → Position) (start stop : Nat) : List Nat :=
  (List.range' start (stop - start)).filter fun i => position i ≠ position (i - 1)

/-- The markers of the runs that begin at the given bars: the entry, and the exit at the end of the
holding period if the next run, or the end of the candles, is later than that. -/
def runMarkers (candles : List (Candle α)) (position : Nat → Position) (holding : Int) :
    List Nat → List (Marker α)
  | [] => []
  | bar :: later =>
    atBar candles bar (entryMarkers (position bar)) ++
      (if 1 ≤ holding ∧ bar + holding < later.headD candles.length then
        atBar candles (bar + holding).toNat (exitMarkers (position bar))
      else []) ++
      runMarkers candles position holding later

/-! ### The walk of a trader -/

theorem positionAfter_eq (call : Nat → Option Position) {start i : Nat} (early : 1 ≤ start)
    (first : start ≤ i) : positionAfter call start i = (call i).getD (positionAfter call start (i - 1)) := by
  cases i with
  | zero => omega
  | succ i => rw [positionAfter, if_pos first, Nat.add_sub_cancel]

theorem positionAfter_of_lt (call : Nat → Option Position) {start i : Nat} (before : i < start) :
    positionAfter call start i = .hold := by
  cases i with
  | zero => rfl
  | succ i => rw [positionAfter, if_neg (by omega)]

theorem signals_of_change {t : Trader} {p : Position} (holding counter : Int) (c : Candle α)
    (changed : p ≠ t.position) : (t.signals holding ⟨p, counter⟩).map (·.marker c) = entryMarkers p c := by
  cases p <;> simp [Trader.signals, changed, entryMarkers, Signal.marker, Signal.price]

theorem signals_of_keep (t : Trader) (holding counter : Int) (c : Candle α) :
    (t.signals holding ⟨t.position, counter⟩).map (·.marker c) =
      if counter = holding then exitMarkers t.position c else [] := by
  by_cases held : counter = holding <;> cases position : t.position <;>
    simp [Trader.signals, held, position, exitMarkers, Signal.marker, Signal.price]

section ChangeBars
variable {position : Nat → Position} {i n : Nat}

theorem changeBars_of_change (inside : i < n) (changed : position i ≠ position (i - 1)) :
    changeBars position i n = i :: changeBars position (i + 1) n := by
  have size : n - i = n - (i + 1) + 1 := by omega
  rw [changeBars, size, List.range'_succ, List.filter_cons_of_pos (by simpa using changed), changeBars]

theorem changeBars_of_keep (inside : i < n) (kept : position i = position (i - 1)) :
    changeBars position i n = changeBars position (i + 1) n := by
  have size : n - i = n - (i + 1) + 1 := by omega
  rw [changeBars, size, List.range'_succ, List.filter_cons_of_neg (by simpa using kept), changeBars]

theorem changeBars_of_le (le : n ≤ i) : changeBars position i n = [] := by
  rw [changeBars, Nat.sub_eq_zero_of_le le]
  rfl

theorem le_headD_changeBars (position : Nat → Position) (le : i ≤ n) :
    i ≤ (changeBars position i n).headD n := by
  cases bars : changeBars position i n with
  | nil => exact le
  | cons bar later =>
    have member : bar ∈ changeBars position i n := bars ▸ List.mem_cons_self
    exact (List.mem_range'_1.mp (List.mem_filter.mp member).1).1

end ChangeBars

/-- The exit that a run still owes before bar `i`, when the counter stands at `counter` and the next run
begins at bar `next`. -/
def pendingExit (candles : List (Candle α)) (p : Position) (holding counter : Int) (i next : Nat) :
    List (Marker α) :=
  let bar := i - 1 + (holding - counter)
  if counter < holding ∧ bar < next then atBar candles bar.toNat (exitMarkers p) else []

section PendingExit
variable {candles : List (Candle α)} {p : Position} {holding counter : Int} {i next : Nat}

theorem pendingExit_of_past (past : next ≤ i) : pendingExit candles p holding counter i next = [] := by
  rw [pendingExit, if_neg]
  omega

/-- Who holds nothing has nothing to leave. -/
theorem pendingExit_of_hold : pendingExit candles .hold holding counter i next = [] := by
  simp only [pendingExit, atBar, exitMarkers]
  split
  · split <;> rfl
  · rfl

theorem pendingExit_of_entry : pendingExit candles p holding 0 (i + 1) next =
    if 1 ≤ holding ∧ i + holding < next then atBar candles (i + holding).toNat (exitMarkers p) else [] := by
  have bar : ((i + 1 : Nat) : Int) - 1 + (holding - 0) = i + holding := by omega
  rw [pendingExit, bar]
  rfl

/-- One bar of a run: the exit is due now, or it stays owed. -/
theorem pendingExit_of_keep {c : Candle α} (here : candles[i]? = some c) (inside : i < next) :
    pendingExit candles p holding counter i next =
      (if counter + 1 = holding then exitMarkers p c else []) ++
        pendingExit candles p holding (counter + 1) (i + 1) next := by
  have bar : ((i + 1 : Nat) : Int) - 1 + (holding - (counter + 1)) = i - 1 + (holding - counter) := by omega
  rw [pendingExit, pendingExit, bar]
  by_cases due : counter + 1 = holding
  · have now : (i - 1 + (holding - counter) : Int) = i := by omega
    rw [now, if_pos due, if_pos ⟨by omega, by omega⟩, if_neg (by omega), Int.toNat_natCast, atBar_eq here,
      List.append_nil]
  · rw [if_neg due, List.nil_append]
    exact if_congr (and_congr_left fun _ => by omega) rfl rfl

end PendingExit

/-- What a trader signals from bar `i` on is the exit that its run still owes, then the later runs. -/
theorem walk_eq_runs {candles : List (Candle α)} {view : Int → α → Except Fault (Option Position)}
    {call : Nat → Option Position} {position : Nat → Position} {start : Nat} (holding : Int)
    (views : ∀ j c, start ≤ j → candles[j]? = some c → view j c.close = .ok (call j))
    (steps : ∀ j, start ≤ j → position j = (call j).getD (position (j - 1)))
    {m i : Nat} (counter : Int) (first : start ≤ i) (size : i + m = candles.length) :
    Trader.walk view holding ⟨position (i - 1), counter⟩ i (candles.drop i) =
      .ok (pendingExit candles (position (i - 1)) holding counter i
          ((changeBars position i candles.length).headD candles.length) ++
        runMarkers candles position holding (changeBars position i candles.length)) := by
  -- on the bars left; the counter is free, for the walk may stand anywhere in a run
  induction m generalizing i counter with
  | zero =>
    rw [changeBars_of_le (by omega), List.headD_nil, pendingExit_of_past (by omega),
      List.drop_of_length_le (by omega)]
    rfl
  | succ m ih =>
    have inside : i < candles.length := by omega
    have here : candles[i]? = some candles[i] := List.getElem?_eq_getElem inside
    have rest (k : Int) := ih (i := i + 1) k (by omega) (by omega)
    simp only [Nat.add_sub_cancel, Int.natCast_add, Int.natCast_one] at rest
    rw [List.drop_eq_getElem_cons inside, Trader.walk, views i _ first here, ok_bind]
    simp only [Trader.next, ← steps i first]
    by_cases kept : position i = position (i - 1)
    · have head := le_headD_changeBars position inside
      rw [if_pos kept, rest, ok_bind, changeBars_of_keep inside kept, pendingExit_of_keep here head,
        List.append_assoc, kept, signals_of_keep ⟨position (i - 1), counter⟩]
      rfl
    · rw [if_neg kept, rest, ok_bind, changeBars_of_change inside kept, List.headD_cons,
        pendingExit_of_past (Nat.le_refl i), runMarkers, signals_of_change holding 0 _ kept,
        pendingExit_of_entry, atBar_eq here, List.nil_append, List.append_assoc]
      rfl

/-! ### The closed form -/

namespace LogisticConfig
variable [Arith α]

/-- The first bar at which a position can change. -/
def firstBar (config : LogisticConfig α) : Nat := (max config.normalization 1).toNat

/-- What bar `j` calls for, a short position first. -/
def callAt (config : LogisticConfig α) (closes loss prediction : List α) (j : Nat) : Option Position :=
  if config.usePrice then
    if relatedAt lt closes loss j then some .short
    else if relatedAt gt closes loss j then some .long
    else none
  else if relatedAt lt loss prediction j && !relatedAt lt loss prediction (j - 1) then some .short
  else if relatedAt gt loss prediction j && !relatedAt gt loss prediction (j - 1) then some .long
  else none

theorem callAt_eq_some_iff (asymm : ∀ {x y : α}, lt x y = true → lt y x = false) (config : LogisticConfig α)
    (closes loss prediction : List α) (j : Nat) (p : Position) :
    config.callAt closes loss prediction j = some p ↔ config.Calls closes loss prediction j p := by
  cases price : config.usePrice
  · cases below : relatedAt lt loss prediction j
    · cases p <;> simp [callAt, Calls, price, below]
    · cases p <;> simp [callAt, Calls, price, below, relatedAt_asymm asymm below]
  · cases below : relatedAt lt closes loss j
    · cases p <;> simp [callAt, Calls, price, below]
    · cases p <;> simp [callAt, Calls, price, below, relatedAt_asymm asymm below]

theorem viewAt_eq (config : LogisticConfig α) {closes loss prediction : List α} {j : Nat} {close : α}
    (later : 1 ≤ j) (here : closes[j]? = some close) (inLoss : j < loss.length)
    (inPrediction : j < prediction.length) :
    viewAt config.usePrice loss prediction j close = .ok (config.callAt closes loss prediction j) := by
  have before : (j : Int) - 1 = (j - 1 : Nat) := by omega
  have curve := List.getElem?_eq_getElem inLoss
  have other := List.getElem?_eq_getElem inPrediction
  have curveBefore := List.getElem?_eq_getElem (l := loss) (i := j - 1) (by omega)
  have otherBefore := List.getElem?_eq_getElem (l := prediction) (i := j - 1) (by omega)
  cases price : config.usePrice
  · simp only [viewAt, before, entry?_natCast curve, entry?_natCast other, entry?_natCast curveBefore,
      entry?_natCast otherBefore, ok_bind, callAt, price, relatedAt_eq _ curve other,
      relatedAt_eq _ curveBefore otherBefore]
    rfl
  · simp only [viewAt, entry?_natCast curve, ok_bind, callAt, price, relatedAt_eq _ here curve]
    rfl

end LogisticConfig

/-- Over doubles the markers of two curves are those of the runs of one position, which the calls of the
bars determine. -/
theorem markers_eq_runs (config : LogisticConfig Float) (history : History Float) (loss prediction : List Float)
    (wholeLoss : loss.length = history.length) (wholePrediction : prediction.length = history.length) :
    ∃ position : Nat → Position,
      (∀ i p, Prevails (config.Calls history.closes loss prediction) config.firstBar i p ↔ p = position i) ∧
      config.markers history loss prediction =
        .ok (runMarkers history.candles position config.holdingPeriod
          (changeBars position config.firstBar history.length)) := by
  have early : 1 ≤ config.firstBar := by
    unfold LogisticConfig.firstBar
    omega
  have exact := config.callAt_eq_some_iff Double.lt_asymm history.closes loss prediction
  have single (j : Nat) (p q : Position) (one : config.Calls history.closes loss prediction j p)
      (other : config.Calls history.closes loss prediction j q) : p = q :=
    Option.some.inj (((exact j p).mpr one).symm.trans ((exact j q).mpr other))
  have views (j : Nat) (c : Candle Float) (first : config.firstBar ≤ j) (here : history.candles[j]? = some c) :
      viewAt config.usePrice loss prediction j c.close =
        .ok (config.callAt history.closes loss prediction j) := by
    have inside : j < history.length := (List.getElem?_eq_some_iff.mp here).1
    refine config.viewAt_eq (by omega) ?_ (by omega) (by omega)
    rw [History.closes, List.getElem?_map, here]
    rfl
  refine ⟨positionAfter (config.callAt history.closes loss prediction) config.firstBar, fun i p => ?_, ?_⟩
  · have prevails := prevails_positionAfter early exact i
    exact ⟨fun other => other.unique single prevails, fun same => same ▸ prevails⟩
  · have start : max config.normalization 1 = (config.firstBar : Int) := by
      unfold LogisticConfig.firstBar
      omega
    rw [LogisticConfig.markers, start, Int.toNat_natCast]
    rcases Nat.le_total config.firstBar history.length with le | le
    · have last : config.firstBar - 1 < config.firstBar := by omega
      have nothing := positionAfter_of_lt (config.callAt history.closes loss prediction) last
      have walk := walk_eq_runs config.holdingPeriod views
        (fun j => positionAfter_eq _ early) 0 (Nat.le_refl _) (Nat.add_sub_of_le le)
      rw [nothing, pendingExit_of_hold, List.nil_append] at walk
      exact walk
    · rw [changeBars_of_le le, List.drop_of_length_le le]
      rfl

/-- Five bars on which a loss that is undefined at first crosses its prediction twice. -/
def crossedHistory : History Float where
  candles := (List.range 5).map fun (t : Nat) => ⟨t, 2.0, 3.0, 1.0, 2.0, none⟩
  ordered := by decide

def crossedLoss : List Float := [0.0 / 0.0, 1.0, 3.0, 3.0, 1.0]

def levelPrediction : List Float := [2.0, 2.0, 2.0, 2.0, 2.0]

def crossingConfig : LogisticConfig Float := { usePrice := false }

theorem markers_eq_runs_of_crossing :
    crossedLoss.length = crossedHistory.length ∧ levelPrediction.length = crossedHistory.length ∧
      ∃ position : Nat → Position,
        (∀ i p, Prevails (crossingConfig.Calls crossedHistory.closes crossedLoss levelPrediction)
          crossingConfig.firstBar i p ↔ p = position i) ∧
        crossingConfig.markers crossedHistory crossedLoss levelPrediction =
          .ok (runMarkers crossedHistory.candles position crossingConfig.holdingPeriod
            (changeBars position crossingConfig.firstBar crossedHistory.length)) :=
  ⟨rfl, rfl, markers_eq_runs crossingConfig crossedHistory crossedLoss levelPrediction rfl rfl⟩

example : (crossingConfig.markers crossedHistory crossedLoss levelPrediction).toOption.map
    (·.map fun m => (m.time, m.signal)) =
      some [(2, .buy), (2, .stopSell), (3, .stopBuy), (4, .sell), (4, .stopBuy)] := by
  decide +kernel

end ChartOverlay
