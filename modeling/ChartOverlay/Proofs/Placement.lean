import ChartOverlay.Arith.Double
import ChartOverlay.Proofs.Plan
import ChartOverlay.Proofs.Sketch

/-!
# Where points and markers stand

The points of a line stand on bars of the history, at most one on each and in order of time, and a marker
stands on the bar at which it was signalled. The one case that is not plain to see is `trace_sublist`: the
two traces of a direction repeat points of each other, but neither repeats a point of its own.
-/

namespace ChartOverlay
variable {α : Type}

/-! ### Lines -/

theorem pointsOf_sublist (times : List Int) (values : List (Option α)) :
    ((pointsOf times values).map (·.time)).Sublist times := by
  induction times generalizing values with
  | nil => simp [pointsOf]
  | cons t times ih =>
    cases values with
    | nil => simp [pointsOf]
    | cons v values =>
      cases v with
      | none => exact (ih values).cons t
      | some x => exact (ih values).cons_cons t

theorem zipWith_point_sublist (times : List Int) (values : List α) (k : Nat) :
    (((List.zipWith Point.mk times values).drop k).map (·.time)).Sublist times := by
  refine ((List.drop_sublist k _).map _).trans ?_
  induction times generalizing values with
  | nil => simp
  | cons t times ih =>
    cases values with
    | nil => simp
    | cons v values => exact (ih values).cons_cons t

/-! ### Traces -/

section Traces
variable {times : List Int} {direction : List α} {colors : List DirectionColor} {start : Int}

/-- The points of the trace where the direction rises, or of the other one. -/
def traceOf (rises : Bool) (steps : List (Bool × List (Point α))) : List (Point α) :=
  (steps.filter (·.1 == rises)).flatMap (·.2)

theorem traceOf_cons_same {side : Bool} {step : Bool × List (Point α)} (same : step.1 = side)
    (steps : List (Bool × List (Point α))) : traceOf side (step :: steps) = step.2 ++ traceOf side steps := by
  simp [traceOf, same]

theorem traceOf_cons_other {side : Bool} {step : Bool × List (Point α)} (other : step.1 ≠ side)
    (steps : List (Bool × List (Point α))) : traceOf side (step :: steps) = traceOf side steps := by
  simp [traceOf, other]

/-- Whether a bar belongs to the trace where the direction rises, or to the other one. -/
def OnTrace (colors : List DirectionColor) (rises : Bool) (i : Int) : Prop :=
  ∃ color, entry? colors i = .ok color ∧ decide (color ≠ .red) = rises

theorem pointAt?_ok {i : Int} {p : Point α} (h : pointAt? times direction i = .ok p) :
    entry? times i = .ok p.time := by
  obtain ⟨t, found, h⟩ := bind_ok h
  obtain ⟨x, _, h⟩ := bind_ok h
  rw [← pure_ok h, found]

/-- A step adds the point of its bar, and in front of it that of the bar before if this was on the other
trace. -/
theorem traceStep?_ok {i : Int} {step : Bool × List (Point α)}
    (h : traceStep? times direction colors start i = .ok step) :
    OnTrace colors step.1 i ∧
      ∃ p, pointAt? times direction i = .ok p ∧
        ((i = start ∨ OnTrace colors step.1 (i - 1)) ∧ step.2 = [p] ∨
          i ≠ start ∧ OnTrace colors (!step.1) (i - 1) ∧
            ∃ q, pointAt? times direction (i - 1) = .ok q ∧ step.2 = [q, p]) := by
  obtain ⟨color, here, h⟩ := bind_ok h
  split at h
  · rename_i first
    obtain ⟨p, point, h⟩ := bind_ok h
    obtain rfl := pure_ok h
    exact ⟨⟨color, here, rfl⟩, p, point, Or.inl ⟨Or.inl first, rfl⟩⟩
  · rename_i later
    obtain ⟨last, before, h⟩ := bind_ok h
    dsimp only at h
    split at h
    · rename_i same
      obtain ⟨p, point, h⟩ := bind_ok h
      obtain rfl := pure_ok h
      exact ⟨⟨color, here, rfl⟩, p, point, Or.inl ⟨Or.inr ⟨last, before, same.symm⟩, rfl⟩⟩
    · rename_i other
      obtain ⟨q, bridge, h⟩ := bind_ok h
      obtain ⟨p, point, h⟩ := bind_ok h
      obtain rfl := pure_ok h
      have across : decide (last ≠ .red) = !decide (color ≠ .red) := Bool.eq_not.mpr fun same => other same.symm
      exact ⟨⟨color, here, rfl⟩, p, point, Or.inr ⟨later, ⟨last, before, across⟩, q, bridge, rfl⟩⟩

theorem OnTrace.unique {s t : Bool} {i : Int} (one : OnTrace colors s i) (other : OnTrace colors t i) :
    s = t := by
  obtain ⟨color, here, rfl⟩ := one
  obtain ⟨again, there, rfl⟩ := other
  obtain rfl := Except.ok.inj (here.symm.trans there)
  rfl

theorem cons_sublist_drop {t : Int} {ts : List Int} {i : Nat} (here : times[i]? = some t)
    (later : ts.Sublist (times.drop (i + 1))) : (t :: ts).Sublist (times.drop i) := by
  obtain ⟨inside, rfl⟩ := List.getElem?_eq_some_iff.mp here
  rw [List.drop_eq_getElem_cons inside]
  exact later.cons_cons _

/-- A trace may reach back to the bar before the first one, unless that bar is on the trace itself. -/
theorem trace_sublist {count i : Nat} {steps : List (Bool × List (Point α))} (side : Bool) (nonneg : 0 ≤ start)
    (first : start ≤ i) (h : sweep (traceStep? times direction colors start) i count = .ok steps) :
    ((traceOf side steps).map (·.time)).Sublist (times.drop (i - 1)) ∧
      (i = start ∨ OnTrace colors side (i - 1) →
        ((traceOf side steps).map (·.time)).Sublist (times.drop i)) := by
  -- the second half is what keeps a point that is repeated for the other trace out of this one
  induction count generalizing i steps with
  | zero =>
    obtain rfl := Except.ok.inj h
    exact ⟨List.nil_sublist _, fun _ => List.nil_sublist _⟩
  | succ count ih =>
    obtain ⟨step, here, h⟩ := bind_ok h
    obtain ⟨rest, tail, h⟩ := bind_ok h
    obtain rfl := pure_ok h
    obtain ⟨far, near⟩ := ih (i := i + 1) (by omega) tail
    obtain ⟨on, p, found, added⟩ := traceStep?_ok here
    have back : (times.drop i).Sublist (times.drop (i - 1)) := List.drop_sublist_drop_left _ (Nat.sub_le _ _)
    have found : times[i]? = some p.time := (entry?_ok_iff (Int.natCast_nonneg i)).mp (pointAt?_ok found)
    by_cases mine : step.1 = side
    · have near := near (Or.inr (by simpa [mine] using on))
      have trace := traceOf_cons_same mine rest
      rcases added with ⟨-, alone⟩ | ⟨later, other, q, bridge, both⟩
      · have tidy := cons_sublist_drop found near
        rw [trace, alone]
        exact ⟨tidy.trans back, fun _ => tidy⟩
      · obtain ⟨k, rfl⟩ : ∃ k, i = k + 1 := ⟨i - 1, by omega⟩
        have last : ((k + 1 : Nat) : Int) - 1 = k := by omega
        rw [last] at bridge other
        rw [trace, both, last, Nat.add_sub_cancel]
        have before : times[k]? = some q.time := (entry?_ok_iff (Int.natCast_nonneg k)).mp (pointAt?_ok bridge)
        refine ⟨cons_sublist_drop before (cons_sublist_drop found near), ?_⟩
        rintro (same | same)
        · exact (later same).elim
        · have := same.unique other
          simp [mine] at this
    · rw [traceOf_cons_other mine]
      exact ⟨far.trans back, fun _ => far⟩

theorem splitDirection_sublist {traces : Traces α} (nonneg : 0 ≤ start)
    (h : splitDirection times direction colors start = .ok traces) :
    (traces.rising.map (·.time)).Sublist times ∧ (traces.falling.map (·.time)).Sublist times := by
  obtain ⟨steps, swept, h⟩ := bind_ok h
  obtain rfl := pure_ok h
  obtain ⟨i, rfl⟩ := Int.eq_ofNat_of_zero_le nonneg
  have tidy (side : Bool) := ((trace_sublist side nonneg (Int.le_refl _) swept).2 (Or.inl rfl)).trans
    (List.drop_sublist _ _)
  have rising := tidy true
  have falling := tidy false
  simp only [traceOf, beq_true, beq_false] at rising falling
  exact ⟨rising, falling⟩

example : (splitDirection [1, 2, 3, 4] ["a", "b", "c", "d"] [.green, .red, .red, .yellow] 0).toOption =
    some { rising := [⟨1, "a"⟩, ⟨3, "c"⟩, ⟨4, "d"⟩], falling := [⟨1, "a"⟩, ⟨2, "b"⟩, ⟨3, "c"⟩] } := by
  decide

end Traces

/-! ### Outcomes -/

/-- The lines of a result stand on bars of the history. -/
def Result.IsPlaced (history : History α) (r : Result α) : Prop :=
  ∀ line ∈ r.lines, (line.points.map (·.time)).Sublist history.times

structure Outcome.IsPlaced (history : History α) (o : Outcome α) : Prop where
  result : ∀ r, o.indicator = some r → r.IsPlaced history
  markers : ∀ m ∈ o.markers, ∃ c ∈ history.candles, m = m.signal.marker c

theorem Outcome.isPlaced_empty (history : History α) : Outcome.IsPlaced history ({ } : Outcome α) where
  result _ h := by cases h
  markers _ h := by cases h

theorem Trader.walk_marker {view : Int → α → Except Fault (Option Position)} {holding : Int} {t : Trader}
    {i : Int} {candles : List (Candle α)} {markers : List (Marker α)}
    (h : Trader.walk view holding t i candles = .ok markers) :
    ∀ m ∈ markers, ∃ c ∈ candles, m = m.signal.marker c := by
  induction candles generalizing t i markers with
  | nil =>
    obtain rfl := Except.ok.inj h
    exact fun m member => by cases member
  | cons c rest ih =>
    obtain ⟨view, _, h⟩ := bind_ok h
    obtain ⟨later, tail, h⟩ := bind_ok h
    obtain rfl := pure_ok h
    intro m member
    rcases List.mem_append.mp member with now | member
    · obtain ⟨signal, _, rfl⟩ := List.mem_map.mp now
      exact ⟨c, List.mem_cons_self, rfl⟩
    · obtain ⟨d, inside, placed⟩ := ih tail m member
      exact ⟨d, List.mem_cons_of_mem _ inside, placed⟩

theorem Sketch.result_isPlaced (history : History α) (s : Sketch α) : (s.result history).IsPlaced history := by
  intro line member
  obtain ⟨c, _, rfl⟩ := List.mem_map.mp member
  exact pointsOf_sublist _ _

variable [Arith α] {history : History α} {o : Outcome α}

theorem LogisticConfig.points_of_lines {config : LogisticConfig α} {loss prediction : List (Point α)} :
    ∀ line ∈ config.lines loss prediction, line.points = loss ∨ line.points = prediction := by
  cases curves : config.showCurves <;> simp [LogisticConfig.lines, curves]

theorem LogisticConfig.run_isPlaced {config : LogisticConfig α} (h : config.run history = .ok o) :
    o.IsPlaced history := by
  obtain ⟨scores, _, h⟩ := bind_ok h
  obtain ⟨loss, _, h⟩ := bind_ok h
  obtain ⟨prediction, _, h⟩ := bind_ok h
  obtain ⟨markers, walked, h⟩ := bind_ok h
  obtain rfl := pure_ok h
  refine ⟨fun r drawn line member => ?_, fun m member => ?_⟩
  · obtain rfl := Option.some.inj drawn
    rcases LogisticConfig.points_of_lines line member with same | same <;>
      exact same ▸ zipWith_point_sublist _ _ _
  · obtain ⟨c, inside, placed⟩ := Trader.walk_marker walked m member
    exact ⟨c, List.mem_of_mem_drop inside, placed⟩

theorem RegressionConfig.run_isPlaced {config : RegressionConfig} (h : config.run history = .ok o) :
    o.IsPlaced history := by
  obtain ⟨average, _, h⟩ := bind_ok h
  obtain rfl := pure_ok h
  refine ⟨fun r drawn => ?_, fun m member => by cases member⟩
  obtain rfl := Option.some.inj drawn
  simp only [Result.IsPlaced, RegressionConfig.result, List.forall_mem_cons]
  exact ⟨pointsOf_sublist _ _, zipWith_point_sublist _ _ _, fun _ member => by cases member⟩

theorem BullBearConfig.run_isPlaced {config : BullBearConfig α} (valid : config.isValid)
    (h : config.run history = .ok o) : o.IsPlaced history := by
  obtain ⟨powers, _, h⟩ := bind_ok h
  obtain ⟨⟨direction, colors⟩, _, h⟩ := bind_ok h
  obtain ⟨traces, split, h⟩ := bind_ok h
  obtain rfl := pure_ok h
  simp only [BullBearConfig.isValid, Bool.and_eq_true, decide_eq_true_eq] at valid
  obtain ⟨rising, falling⟩ := splitDirection_sublist (by omega) split
  refine ⟨fun r drawn => ?_, fun m member => by cases member⟩
  obtain rfl := Option.some.inj drawn
  simp only [Result.IsPlaced, BullBearConfig.result, List.forall_mem_cons]
  exact ⟨zipWith_point_sublist _ _ _, zipWith_point_sublist _ _ _, rising, falling,
    fun _ member => by cases member⟩

theorem Engine.compute_isPlaced {e : Engine α} (h : e.compute history = .ok o) : o.IsPlaced history := by
  unfold Engine.compute at h
  split at h
  · rename_i runs
    cases e with
    | logistic config => exact LogisticConfig.run_isPlaced h
    | regression config => exact RegressionConfig.run_isPlaced h
    | bullBear config => exact BullBearConfig.run_isPlaced runs.1 h
  · obtain rfl := Except.ok.inj h
    exact Outcome.isPlaced_empty history

theorem Drawing.outcome?_isPlaced {d : Drawing α} (h : d.outcome? history = .ok o) : o.IsPlaced history := by
  cases d with
  | indicator d colorIndex =>
    obtain ⟨result, calculated, h⟩ := bind_ok h
    obtain rfl := pure_ok h
    refine ⟨fun r drawn => ?_, fun m member => by cases member⟩
    rw [Descriptor.calculate_eq_sketch] at calculated
    obtain ⟨sketch, _, rfl⟩ := map_ok calculated
    obtain ⟨s, rfl, rfl⟩ := Option.map_eq_some_iff.mp drawn
    exact s.result_isPlaced history
  | engine e => exact e.compute_isPlaced h

theorem Drawing.outcome_isPlaced (history : History α) (d : Drawing α) :
    (d.outcome history).IsPlaced history := by
  cases drawn : d.outcome? history with
  | ok o => exact Drawing.outcome_eq drawn ▸ Drawing.outcome?_isPlaced drawn
  | error e =>
    rw [Drawing.outcome, drawn]
    exact Outcome.isPlaced_empty history

/-- Points and markers stand where a chart can draw them. -/
structure Bundle.IsPlaced (history : History α) (b : Bundle α) : Prop where
  increasing : ∀ r ∈ b.results, ∀ line ∈ r.lines, line.points.Pairwise (·.time < ·.time)
  points : ∀ r ∈ b.results, ∀ line ∈ r.lines, ∀ p ∈ line.points, ∃ c ∈ history.candles, p.time = c.time
  markers : ∀ m ∈ b.markers, ∃ c ∈ history.candles, m.time = c.time ∧
    (m.signal = .buy ∨ m.signal = .stopSell → m.price = c.low) ∧
    (m.signal = .sell ∨ m.signal = .stopBuy → m.price = c.high)
  ordered : b.markers.Pairwise (·.time ≤ ·.time)

theorem overlays?_isPlaced {scripts : List Text} {colorIndex : Int} {b : Bundle α}
    (h : overlays? history scripts colorIndex = .ok b) : b.IsPlaced history := by
  obtain ⟨plan, _, _, rfl⟩ := overlays?_ok_iff_plan.mp h
  have sort := sorted_markers (plan.bundle history)
  have lines (r : Result α) (member : r ∈ (plan.bundle history).results) : r.IsPlaced history := by
    obtain ⟨d, _, drawn⟩ := List.mem_filterMap.mp member
    exact (d.outcome_isPlaced history).result r drawn
  refine ⟨fun r member line inside => ?_, fun r member line inside p point => ?_, fun m member => ?_,
    sort.ordered⟩
  · have times : history.times.Pairwise (· < ·) := List.pairwise_map.mpr history.ordered
    exact List.pairwise_map.mp (times.sublist (lines r member line inside))
  · have time := (lines r member line inside).subset (List.mem_map_of_mem point)
    obtain ⟨c, candle, same⟩ := List.mem_map.mp time
    exact ⟨c, candle, same.symm⟩
  · obtain ⟨d, _, member⟩ := List.mem_flatMap.mp (sort.perm.mem_iff.mp member)
    obtain ⟨c, candle, same⟩ := (d.outcome_isPlaced history).markers m member
    refine ⟨c, candle, by rw [same]; rfl, ?_, ?_⟩ <;>
      rintro (signal | signal) <;> rw [same, signal] <;> rfl

/-- Seven bars whose closes turn twice. -/
def turningHistory : History Float where
  candles := [(1, 1.0), (2, 2.0), (3, 3.0), (5, 1.0), (6, 0.5), (7, 2.0), (8, 4.0)].map
    fun (t, x) => ⟨t, x, x + 1.0, x - 1.0, x, none⟩
  ordered := by decide

def turningScripts : List Text := ["SMA 2", "ML3 window = input(defval=2) smooth = input(defval=false)"]

theorem overlays?_isPlaced_of_turning :
    ∃ b, overlays? turningHistory turningScripts 0 = .ok b ∧ b.IsPlaced turningHistory := by
  have succeeds : (overlays? turningHistory turningScripts 0).isOk := by decide +kernel
  cases drawn : overlays? turningHistory turningScripts 0 with
  | ok b => exact ⟨b, rfl, overlays?_isPlaced drawn⟩
  | error e =>
    rw [drawn] at succeeds
    cases succeeds

end ChartOverlay
