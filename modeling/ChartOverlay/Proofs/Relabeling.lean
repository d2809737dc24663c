import ChartOverlay.Proofs.Placement

/-!
# What overlays depend on

Of a candle only its close enters a calculation. `bars` forgets all else: its candles know their number and
their close. Overlays over a history are those over its bars, moved to its candles (`ofScripts?_on`), so that
two histories with the same closes have overlays that match bar by bar (`overlays?_matches`).
-/

namespace ChartOverlay
variable {α : Type}

/-! ### Bars -/

/-- The bar with a number and a close. -/
def bar (i : Nat) (close : α) : Candle α := ⟨i, close, close, close, close, none⟩

/-- The history of closes whose candles stand at the numbers of the bars. -/
def bars (closes : List α) : History α where
  candles := closes.mapIdx bar
  ordered := by
    rw [List.pairwise_iff_getElem]
    intro i j hi hj lt
    simpa [bar] using lt

theorem getElem?_bars (closes : List α) (i : Nat) :
    (bars closes).candles[i]? = closes[i]?.map (bar i) := List.getElem?_mapIdx

theorem closes_bars (closes : List α) : (bars closes).closes = closes := by
  refine List.ext_getElem? fun i => ?_
  rw [History.closes, List.getElem?_map, getElem?_bars, Option.map_map]
  exact Option.map_id'

theorem length_bars (closes : List α) : (bars closes).length = closes.length := List.length_mapIdx

theorem bar_of_mem {closes : List α} {b : Candle α} (member : b ∈ (bars closes).candles) :
    ∃ i x, closes[i]? = some x ∧ b = bar i x := by
  obtain ⟨i, found⟩ := List.mem_iff_getElem?.mp member
  rw [getElem?_bars] at found
  obtain ⟨x, close, rfl⟩ := Option.map_eq_some_iff.mp found
  exact ⟨i, x, close, rfl⟩

/-! ### From bars to candles -/

namespace History

/-- The candle of a history at a bar; a bar beyond the history stands for itself. -/
def candleAt (history : History α) (b : Candle α) : Candle α := (history.candles[b.time.toNat]?).getD b

def timeAt (history : History α) (t : Int) : Int := ((history.candles[t.toNat]?).map (·.time)).getD t

theorem candleAt_time (history : History α) (b : Candle α) :
    (history.candleAt b).time = history.timeAt b.time := by
  unfold candleAt timeAt
  cases history.candles[b.time.toNat]? <;> rfl

theorem candleAt_bar {history : History α} {i : Nat} {c : Candle α} (found : history.candles[i]? = some c)
    (close : α) : history.candleAt (bar i close) = c := by
  show (history.candles[i]?).getD _ = c
  rw [found]
  rfl

theorem candles_eq_map (history : History α) :
    history.candles = (bars history.closes).candles.map history.candleAt := by
  refine List.ext_getElem? fun i => ?_
  rw [List.getElem?_map, getElem?_bars, History.closes, List.getElem?_map]
  cases found : history.candles[i]? with
  | none => rfl
  | some c => exact congrArg some (candleAt_bar found _).symm

theorem times_eq_map (history : History α) :
    history.times = (bars history.closes).times.map history.timeAt := by
  rw [times, candles_eq_map, times, List.map_map, List.map_map]
  exact List.map_congr_left fun b _ => history.candleAt_time b

theorem candleAt_close {history : History α} {b : Candle α} (member : b ∈ (bars history.closes).candles) :
    (history.candleAt b).close = b.close := by
  obtain ⟨i, x, close, rfl⟩ := bar_of_mem member
  rw [History.closes, List.getElem?_map] at close
  obtain ⟨c, found, rfl⟩ := Option.map_eq_some_iff.mp close
  rw [candleAt_bar found]
  rfl

end History

def Point.on (history : History α) (p : Point α) : Point α := { p with time := history.timeAt p.time }

def Line.on (history : History α) (line : Line α) : Line α :=
  { line with points := line.points.map (·.on history) }

def Result.on (history : History α) (r : Result α) : Result α := { r with lines := r.lines.map (·.on history) }

def Marker.on (history : History α) (m : Marker α) : Marker α :=
  match history.candles[m.time.toNat]? with
  | some c => m.signal.marker c
  | none => m

def Outcome.on (history : History α) (o : Outcome α) : Outcome α where
  indicator := o.indicator.map (·.on history)
  markers := o.markers.map (·.on history)

/-- What was drawn over bars, drawn over the candles of a history. -/
def Bundle.on (history : History α) (b : Bundle α) : Bundle α where
  results := b.results.map (·.on history)
  markers := b.markers.map (·.on history)
  nextColorIndex := b.nextColorIndex

theorem marker_on (history : History α) (s : Signal) (b : Candle α) :
    (s.marker b).on history = s.marker (history.candleAt b) := by
  unfold Marker.on History.candleAt
  show (match history.candles[b.time.toNat]? with | some c => s.marker c | none => s.marker b) = _
  cases history.candles[b.time.toNat]? <;> rfl

/-! ### Series -/

section Series
variable (history : History α)

theorem pointsOf_on (times : List Int) (values : List (Option α)) :
    pointsOf (times.map history.timeAt) values = (pointsOf times values).map (·.on history) := by
  rw [pointsOf, pointsOf, List.zip_map_left, List.filterMap_map, List.map_filterMap]
  refine List.filterMap_congr ?_
  rintro ⟨t, v⟩ _
  cases v <;> rfl

theorem zipWith_point_on (times : List Int) (values : List α) (k : Nat) :
    (List.zipWith Point.mk (times.map history.timeAt) values).drop k =
      ((List.zipWith Point.mk times values).drop k).map (·.on history) := by
  rw [List.map_drop, List.map_zipWith, List.zipWith_map_left]
  rfl

theorem Sketch.result_on (s : Sketch α) :
    s.result history = (s.result (bars history.closes)).on history := by
  simp only [Sketch.result, Result.on, List.map_map]
  refine congrArg _ (List.map_congr_left fun c _ => ?_)
  simp only [Curve.line, Line.on, Function.comp_apply, closes_bars, history.times_eq_map, pointsOf_on]

end Series

/-! ### Traces -/

section Traces
variable {β γ : Type}

theorem sweep_map {f : Int → Except Fault β} {g : Int → Except Fault γ} (h : β → γ)
    (steps : ∀ i, g i = h <$> f i) (start : Int) (count : Nat) :
    sweep g start count = List.map h <$> sweep f start count := by
  induction count generalizing start with
  | zero => rfl
  | succ count ih =>
    simp only [sweep, steps, ih, map_bind, bind_map_left]
    rfl

theorem entry?_map (f : β → γ) (xs : List β) (i : Int) : entry? (xs.map f) i = f <$> entry? xs i := by
  unfold entry?
  rw [List.length_map]
  dsimp only
  generalize (if i < 0 then i + xs.length else i) = k
  split
  · rfl
  · rw [List.getElem?_map]
    cases xs[k.toNat]? <;> rfl

variable (history : History α) (times : List Int) (direction : List α) (colors : List DirectionColor)

theorem pointAt?_on (i : Int) :
    pointAt? (times.map history.timeAt) direction i = (·.on history) <$> pointAt? times direction i := by
  simp only [pointAt?, entry?_map, map_bind, bind_map_left]
  rfl

theorem traceStep?_on (start i : Int) :
    traceStep? (times.map history.timeAt) direction colors start i =
      (fun step => (step.1, step.2.map (·.on history))) <$> traceStep? times direction colors start i := by
  simp only [traceStep?, pointAt?_on, map_bind, bind_map_left]
  refine bind_congr fun color => ?_
  split
  · rw [map_bind]
    rfl
  · rw [map_bind]
    refine bind_congr fun before => ?_
    split
    · rw [map_bind]
      rfl
    · simp only [map_bind]
      rfl

def Traces.on (history : History α) (traces : Traces α) : Traces α where
  rising := traces.rising.map (·.on history)
  falling := traces.falling.map (·.on history)

theorem splitDirection_on (start : Int) :
    splitDirection (times.map history.timeAt) direction colors start =
      (·.on history) <$> splitDirection times direction colors start := by
  unfold splitDirection sweepUpTo
  rw [sweep_map _ (traceStep?_on history times direction colors start), bind_map_left, map_bind]
  refine bind_congr fun steps => congrArg Except.ok ?_
  have trace (side : Bool → Bool) :
      ((steps.map fun step => (step.1, step.2.map (·.on history))).filter (side ·.1)).flatMap (·.2) =
        ((steps.filter (side ·.1)).flatMap (·.2)).map (·.on history) := by
    rw [List.filter_map, List.flatMap_map, List.map_flatMap]
    rfl
  exact congr (congrArg Traces.mk (trace id)) (trace not)

end Traces

/-! ### Markers -/

/-- A trader sees closes only. -/
theorem Trader.walk_map {view : Int → α → Except Fault (Option Position)} {holding : Int}
    {move : Candle α → Candle α} {carry : Marker α → Marker α}
    (carries : ∀ s c, carry (Signal.marker c s) = s.marker (move c)) (t : Trader) (i : Int)
    {candles : List (Candle α)} (keeps : ∀ c ∈ candles, (move c).close = c.close) :
    Trader.walk view holding t i (candles.map move) =
      List.map carry <$> Trader.walk view holding t i candles := by
  induction candles generalizing t i with
  | nil => rfl
  | cons c rest ih =>
    have tail := fun t i => ih t i fun d member => keeps d (List.mem_cons_of_mem _ member)
    rw [List.map_cons, Trader.walk, Trader.walk, keeps c List.mem_cons_self]
    simp only [tail, map_bind, bind_map_left]
    refine bind_congr fun call => bind_congr fun later => congrArg Except.ok ?_
    simp only [List.map_append, List.map_map, Function.comp_def, carries]

/-! ### Engines -/

section Engines
variable [Arith α] (history : History α)

theorem LogisticConfig.markers_on (config : LogisticConfig α) (loss prediction : List α) :
    config.markers history loss prediction =
      List.map (·.on history) <$> config.markers (bars history.closes) loss prediction := by
  unfold LogisticConfig.markers
  dsimp only
  rw [history.candles_eq_map, ← List.map_drop]
  refine Trader.walk_map (marker_on history) _ _ fun b member => ?_
  exact History.candleAt_close (List.mem_of_mem_drop member)

theorem LogisticConfig.result_on (config : LogisticConfig α) (loss prediction : List α) :
    config.result history loss prediction =
      (config.result (bars history.closes) loss prediction).on history := by
  simp only [LogisticConfig.result, history.times_eq_map, zipWith_point_on]
  cases curves : config.showCurves <;> simp [LogisticConfig.lines, curves, Result.on, Line.on]

theorem LogisticConfig.run_on (config : LogisticConfig α) :
    config.run history = (·.on history) <$> config.run (bars history.closes) := by
  simp only [LogisticConfig.run, closes_bars, map_bind]
  refine bind_congr fun scores => bind_congr fun loss => bind_congr fun prediction => ?_
  rw [config.markers_on, bind_map_left]
  refine bind_congr fun markers => congrArg Except.ok ?_
  rw [config.result_on]
  rfl

theorem RegressionConfig.run_on (config : RegressionConfig) :
    config.run history = (·.on history) <$> config.run (bars history.closes) := by
  simp only [RegressionConfig.run, closes_bars, map_bind]
  refine bind_congr fun average => congrArg Except.ok ?_
  simp only [RegressionConfig.result, closes_bars, history.times_eq_map, pointsOf_on, zipWith_point_on]
  rfl

theorem BullBearConfig.run_on (config : BullBearConfig α) :
    config.run history = (·.on history) <$> config.run (bars history.closes) := by
  simp only [BullBearConfig.run, closes_bars, map_bind]
  refine bind_congr fun powers => bind_congr fun directed => ?_
  rw [history.times_eq_map, splitDirection_on, bind_map_left]
  refine bind_congr fun traces => congrArg Except.ok ?_
  simp only [BullBearConfig.result, history.times_eq_map, zipWith_point_on]
  rfl

theorem Engine.compute_on (e : Engine α) :
    e.compute history = (·.on history) <$> e.compute (bars history.closes) := by
  have length : (bars history.closes).length = history.length := (length_bars _).trans (List.length_map _)
  have runs : e.Runs (bars history.closes) ↔ e.Runs history := by
    rw [Engine.Runs, Engine.Runs, length]
  unfold Engine.compute
  simp only [runs]
  split
  · cases e with
    | logistic config => exact config.run_on history
    | regression config => exact config.run_on history
    | bullBear config => exact config.run_on history
  · rfl

/-! ### Batches -/

namespace Bundle

theorem ofIndicators?_on (colorIndex : Int) (indicators : List (Descriptor α)) :
    ofIndicators? history colorIndex indicators =
      (·.on history) <$> ofIndicators? (bars history.closes) colorIndex indicators := by
  induction indicators generalizing colorIndex with
  | nil => rfl
  | cons d rest ih =>
    simp only [ofIndicators?, d.calculate_eq_sketch, ih, map_bind, bind_map_left]
    refine bind_congr fun sketch => bind_congr fun later => congrArg Except.ok ?_
    cases sketch with
    | none => rfl
    | some s => simp [Bundle.on, s.result_on history]

theorem mapError_map {ε δ β γ : Type} (f : ε → δ) (g : β → γ) (x : Except ε β) :
    (g <$> x).mapError f = g <$> x.mapError f := by
  cases x <;> rfl

theorem ofScript?_on (colorIndex : Int) (script : Text) :
    ofScript? history colorIndex script =
      (·.on history) <$> ofScript? (bars history.closes) colorIndex script := by
  simp only [ofScript?, map_bind]
  refine bind_congr fun asked => ?_
  cases asked with
  | generic indicators => simp only [ofIndicators?_on history, mapError_map]
  | engine e =>
    simp only [e.compute_on history, mapError_map, map_bind, bind_map_left]
    refine bind_congr fun outcome => congrArg Except.ok ?_
    cases result : outcome.indicator <;> simp [Outcome.on, Bundle.on, result]

/-- Overlays over a history are those over its bars, moved to its candles. -/
theorem ofScripts?_on (colorIndex : Int) (scripts : List Text) :
    ofScripts? history colorIndex scripts =
      (·.on history) <$> ofScripts? (bars history.closes) colorIndex scripts := by
  induction scripts generalizing colorIndex with
  | nil => rfl
  | cons script rest ih =>
    simp only [ofScripts?, ofScript?_on history, map_bind, bind_map_left]
    refine bind_congr fun first => ?_
    rw [ih, bind_map_left]
    refine bind_congr fun later => congrArg Except.ok ?_
    simp [Bundle.on]

end Bundle

end Engines

/-! ### Order of time -/

section Order
variable {history : History α}

theorem time_le_iff {i j : Nat} {c d : Candle α} (first : history.candles[i]? = some c)
    (second : history.candles[j]? = some d) : c.time ≤ d.time ↔ i ≤ j := by
  obtain ⟨left, rfl⟩ := List.getElem?_eq_some_iff.mp first
  obtain ⟨right, rfl⟩ := List.getElem?_eq_some_iff.mp second
  have order := List.pairwise_iff_getElem.mp history.ordered
  rcases Nat.lt_trichotomy i j with lt | rfl | lt
  · have := order i j left right lt
    omega
  · exact iff_of_true (Int.le_refl _) (Nat.le_refl _)
  · have := order j i right left lt
    omega

theorem marker_bar {closes : List α} {m : Marker α}
    (placed : ∃ b ∈ (bars closes).candles, m = m.signal.marker b) :
    ∃ i x, closes[i]? = some x ∧ m = m.signal.marker (bar i x) := by
  obtain ⟨b, member, same⟩ := placed
  obtain ⟨i, x, close, rfl⟩ := bar_of_mem member
  exact ⟨i, x, close, same⟩

theorem candle_of_close {i : Nat} {x : α} (close : history.closes[i]? = some x) :
    ∃ c, history.candles[i]? = some c ∧ c.close = x := by
  rw [History.closes, List.getElem?_map] at close
  exact Option.map_eq_some_iff.mp close

/-- Bars and candles are in the same order, so markers can be sorted before or after they are moved. -/
theorem Bundle.sorted_on [Arith α] {b : Bundle α}
    (placed : ∀ m ∈ b.markers, ∃ c ∈ (bars history.closes).candles, m = m.signal.marker c) :
    (b.on history).sorted = b.sorted.on history := by
  refine congrArg (Bundle.mk _ · _) (List.map_mergeSort fun m member n among => ?_).symm
  obtain ⟨i, x, close, first⟩ := marker_bar (placed m member)
  obtain ⟨j, y, later, second⟩ := marker_bar (placed n among)
  obtain ⟨c, left, -⟩ := candle_of_close close
  obtain ⟨d, right, -⟩ := candle_of_close later
  rw [first, second, marker_on, marker_on, History.candleAt_bar left, History.candleAt_bar right]
  refine decide_eq_decide.mpr ?_
  show (i : Int) ≤ j ↔ c.time ≤ d.time
  rw [time_le_iff left right, Int.ofNat_le]

end Order

/-! ### Two histories -/

/-- Two points with one value on one bar of their histories. -/
structure Point.Matches (history other : History α) (p q : Point α) : Prop where
  value : p.value = q.value
  bar : ∃ i : Nat, history.times[i]? = some p.time ∧ other.times[i]? = some q.time

structure Line.Matches (history other : History α) (line more : Line α) : Prop where
  label : line.label = more.label
  color : line.color = more.color
  width : line.width = more.width
  style : line.style = more.style
  points : List.Forall₂ (Point.Matches history other) line.points more.points

structure Result.Matches (history other : History α) (r s : Result α) : Prop where
  name : r.name = s.name
  kind : r.kind = s.kind
  lines : List.Forall₂ (Line.Matches history other) r.lines s.lines

/-- Two markers with one signal on one bar, each at a price of its own candle. -/
structure Marker.Matches (history other : History α) (m n : Marker α) : Prop where
  signal : m.signal = n.signal
  bar : ∃ (i : Nat) (c d : Candle α), history.candles[i]? = some c ∧ other.candles[i]? = some d ∧
    m = m.signal.marker c ∧ n = n.signal.marker d

/-- Two bundles that differ only in where their histories have the bars. -/
structure Bundle.Matches (history other : History α) (a b : Bundle α) : Prop where
  nextColorIndex : a.nextColorIndex = b.nextColorIndex
  results : List.Forall₂ (Result.Matches history other) a.results b.results
  markers : List.Forall₂ (Marker.Matches history other) a.markers b.markers

section Matches
variable {history other : History α}

theorem forall₂_map_of_mem {β γ δ : Type} {r : γ → δ → Prop} {f : β → γ} {g : β → δ} {xs : List β}
    (related : ∀ x ∈ xs, r (f x) (g x)) : List.Forall₂ r (xs.map f) (xs.map g) :=
  List.forall₂_map_left_iff.mpr (List.forall₂_map_right_iff.mpr (List.forall₂_same.mpr related))

theorem timeAt_of_close {i : Nat} {x : α} (close : history.closes[i]? = some x) :
    history.times[i]? = some (history.timeAt i) := by
  obtain ⟨c, found, -⟩ := candle_of_close close
  have candle : history.candles[(i : Int).toNat]? = some c := found
  rw [History.times, List.getElem?_map, found, History.timeAt, candle]
  rfl

theorem Point.on_matches (same : history.closes = other.closes) {p : Point α}
    (placed : p.time ∈ (bars history.closes).times) : (p.on history).Matches history other (p.on other) := by
  obtain ⟨b, member, time⟩ := List.mem_map.mp placed
  obtain ⟨i, x, close, rfl⟩ := bar_of_mem member
  have here : p.time = i := time.symm
  refine ⟨rfl, i, ?_, ?_⟩
  · rw [timeAt_of_close close, Point.on, here]
  · rw [timeAt_of_close (same ▸ close), Point.on, here]

theorem Result.on_matches (same : history.closes = other.closes) {r : Result α}
    (placed : r.IsPlaced (bars history.closes)) : (r.on history).Matches history other (r.on other) := by
  refine ⟨rfl, rfl, forall₂_map_of_mem fun line member => ?_⟩
  refine ⟨rfl, rfl, rfl, rfl, forall₂_map_of_mem fun p point => ?_⟩
  exact Point.on_matches same ((placed line member).subset (List.mem_map_of_mem point))

theorem Marker.on_matches (same : history.closes = other.closes) {m : Marker α}
    (placed : ∃ b ∈ (bars history.closes).candles, m = m.signal.marker b) :
    (m.on history).Matches history other (m.on other) := by
  obtain ⟨i, x, close, here⟩ := marker_bar placed
  obtain ⟨c, left, -⟩ := candle_of_close close
  obtain ⟨d, right, -⟩ := candle_of_close (same ▸ close)
  rw [here, marker_on, marker_on, History.candleAt_bar left, History.candleAt_bar right]
  exact ⟨rfl, i, c, d, left, right, rfl, rfl⟩

variable [Arith α]

theorem Plan.bundle_isPlaced (history : History α) (plan : Plan α) :
    (∀ r ∈ (plan.bundle history).results, r.IsPlaced history) ∧
      ∀ m ∈ (plan.bundle history).markers, ∃ c ∈ history.candles, m = m.signal.marker c := by
  refine ⟨fun r member => ?_, fun m member => ?_⟩
  · obtain ⟨d, _, drawn⟩ := List.mem_filterMap.mp member
    exact (d.outcome_isPlaced history).result r drawn
  · obtain ⟨d, _, member⟩ := List.mem_flatMap.mp member
    exact (d.outcome_isPlaced history).markers m member

/-- A batch over two histories with the same closes, whatever else their candles hold: it fails over both
with the same error, or what it draws over both matches bar by bar. -/
theorem overlays?_matches (same : history.closes = other.closes) (scripts : List Text) (colorIndex : Int) :
    (∀ e, overlays? history scripts colorIndex = .error e ↔ overlays? other scripts colorIndex = .error e) ∧
      ∀ a, overlays? history scripts colorIndex = .ok a →
        ∃ b, overlays? other scripts colorIndex = .ok b ∧ a.Matches history other b := by
  unfold overlays?
  rw [Bundle.ofScripts?_on history, Bundle.ofScripts?_on other, ← same]
  cases drawn : Bundle.ofScripts? (bars history.closes) colorIndex scripts with
  | error e => exact ⟨fun _ => Iff.rfl, nofun⟩
  | ok raw =>
    refine ⟨fun e => iff_of_false nofun nofun, fun a h => ⟨_, rfl, ?_⟩⟩
    obtain rfl := Except.ok.inj h
    obtain ⟨plan, _, _, rfl⟩ := Bundle.ofScripts?_ok_iff.mp drawn
    obtain ⟨results, markers⟩ := plan.bundle_isPlaced (bars history.closes)
    rw [Bundle.sorted_on markers, Bundle.sorted_on (same ▸ markers)]
    refine ⟨rfl, forall₂_map_of_mem fun r member => ?_, forall₂_map_of_mem fun m member => ?_⟩
    · exact Result.on_matches same (results r member)
    · exact Marker.on_matches same (markers m ((sorted_markers _).perm.mem_iff.mp member))

end Matches

/-- The closes of `turningHistory` at other times, with other prices around them. -/
def stretchedHistory : History Float where
  candles := [(-4, 1.0), (0, 2.0), (9, 3.0), (10, 1.0), (11, 0.5), (40, 2.0), (90, 4.0)].map
    fun (t, x) => ⟨t, x + 0.5, x + 2.0, x - 0.5, x, some 7.0⟩
  ordered := by decide

theorem overlays?_matches_of_stretched :
    turningHistory.closes = stretchedHistory.closes ∧
      ∃ a b, overlays? turningHistory turningScripts 0 = .ok a ∧
        overlays? stretchedHistory turningScripts 0 = .ok b ∧
        a.Matches turningHistory stretchedHistory b := by
  have same : turningHistory.closes = stretchedHistory.closes := rfl
  have succeeds : (overlays? turningHistory turningScripts 0).isOk := by decide +kernel
  cases drawn : overlays? turningHistory turningScripts 0 with
  | ok a =>
    obtain ⟨b, other, matched⟩ := (overlays?_matches same turningScripts 0).2 a drawn
    exact ⟨same, a, b, rfl, other, matched⟩
  | error e =>
    rw [drawn] at succeeds
    cases succeeds

end ChartOverlay
