import ChartOverlay.Proofs.Growth
import ChartOverlay.Proofs.Placement

/-!
# No repainting

What is drawn over a history stays as it is when candles arrive: lines get longer, markers are added behind
the last candle, and an engine that was short of candles starts to draw. `outcome?_mono` says so of one
drawing, `overlays?_unrepainted` of a whole batch.
-/

namespace ChartOverlay
variable {α : Type}

/-- The same line with more points behind it. -/
structure Line.GrowsTo (line longer : Line α) : Prop where
  label : line.label = longer.label
  color : line.color = longer.color
  width : line.width = longer.width
  style : line.style = longer.style
  points : line.points <+: longer.points

structure Result.GrowsTo (r s : Result α) : Prop where
  name : r.name = s.name
  kind : r.kind = s.kind
  lines : List.Forall₂ Line.GrowsTo r.lines s.lines

/-- The result grows, and new markers stand behind the candles of the history. -/
structure Outcome.GrowsTo (history : History α) (before after : Outcome α) : Prop where
  result : Option.Rel Result.GrowsTo before.indicator after.indicator
  markers : ∃ rest, after.markers = before.markers ++ rest ∧
    ∀ m ∈ rest, ∀ c ∈ history.candles, c.time < m.time

theorem Outcome.growsTo_empty (history : History α) : Outcome.GrowsTo history ({ } : Outcome α) { } where
  result := .none
  markers := ⟨[], rfl, fun m member => by cases member⟩

/-- A result without markers. -/
theorem Outcome.growsTo_of_result {history : History α} {r s : Result α} (grown : r.GrowsTo s) :
    Outcome.GrowsTo history { indicator := some r } { indicator := some s } where
  result := .some grown
  markers := ⟨[], rfl, fun m member => by cases member⟩

section Histories
variable {history later : History α}

theorem times_isFront (extended : history.candles <+: later.candles) :
    IsFront history.length history.times later.times where
  extended := extended.map _
  length := List.length_map _

theorem closes_isFront (extended : history.candles <+: later.candles) :
    IsFront history.length history.closes later.closes where
  extended := extended.map _
  length := List.length_map _

theorem pointsOf_mono {times more : List Int} {values others : List (Option α)} (time : times <+: more)
    (value : values <+: others) : pointsOf times values <+: pointsOf more others :=
  (zipWith_mono Prod.mk time value).filterMap _

theorem drop_zipWith_mono {times more : List Int} {values others : List α} (time : times <+: more)
    (value : values <+: others) (k : Nat) :
    (List.zipWith Point.mk times values).drop k <+: (List.zipWith Point.mk more others).drop k :=
  drop_mono (zipWith_mono _ time value) k

theorem Sketch.result_growsTo (s : Sketch α) (extended : history.candles <+: later.candles) :
    (s.result history).GrowsTo (s.result later) where
  name := rfl
  kind := rfl
  lines := by
    refine List.forall₂_map_left_iff.mpr (List.forall₂_map_right_iff.mpr (List.forall₂_same.mpr fun c _ => ?_))
    exact ⟨rfl, rfl, rfl, rfl, pointsOf_mono (extended.map _) (c.causal (extended.map _))⟩

/-! ### Walks over more candles -/

/-- A trader that walks on only adds markers on the candles it comes to. -/
theorem walk_mono {view other : Int → α → Except Fault (Option Position)} {holding : Int} {t : Trader}
    {i : Int} {front back : List (Candle α)} {after : List (Marker α)}
    (agree : ∀ j close, i ≤ j → j < i + front.length → view j close = other j close)
    (h : Trader.walk other holding t i (front ++ back) = .ok after) :
    ∃ before rest, Trader.walk view holding t i front = .ok before ∧ after = before ++ rest ∧
      ∀ m ∈ rest, ∃ c ∈ back, m.time = c.time := by
  induction front generalizing t i after with
  | nil =>
    refine ⟨[], after, rfl, rfl, fun m member => ?_⟩
    obtain ⟨c, candle, placed⟩ := Trader.walk_marker h m member
    exact ⟨c, candle, by rw [placed]; rfl⟩
  | cons c front ih =>
    obtain ⟨call, called, h⟩ := bind_ok h
    obtain ⟨later, tail, h⟩ := bind_ok h
    obtain rfl := pure_ok h
    simp only [List.length_cons] at agree
    obtain ⟨before, rest, walked, rfl, placed⟩ :=
      ih (fun j close first last => agree j close (by omega) (by omega)) tail
    rw [← agree i c.close (Int.le_refl i) (by omega)] at called
    refine ⟨_, rest, ?_, (List.append_assoc _ _ _).symm, placed⟩
    rw [Trader.walk, called, ok_bind]
    simp only [walked, ok_bind]
    rfl

/-! ### Engines -/

variable [Arith α]

theorem LogisticConfig.markers_mono {config : LogisticConfig α} {loss curve prediction other : List α}
    {after : List (Marker α)} (extended : history.candles <+: later.candles)
    (front : IsFront history.length loss curve) (beside : IsFront history.length prediction other)
    (h : config.markers later curve other = .ok after) :
    ∃ before rest, config.markers history loss prediction = .ok before ∧ after = before ++ rest ∧
      ∀ m ∈ rest, ∀ c ∈ history.candles, c.time < m.time := by
  obtain ⟨more, arrived⟩ := extended
  have order := later.ordered
  rw [← arrived, List.pairwise_append] at order
  unfold LogisticConfig.markers at h ⊢
  dsimp only at h ⊢
  rw [← arrived, List.drop_append] at h
  generalize start : max config.normalization 1 = first at h ⊢
  have agree (j : Int) (close : α) (le : first ≤ j)
      (inside : j < first + (history.candles.drop first.toNat).length) :
      viewAt config.usePrice loss prediction j close = viewAt config.usePrice curve other j close := by
    have last : j < history.length := by
      rw [List.length_drop] at inside
      unfold History.length
      omega
    exact viewAt_eq_of_lt front beside config.usePrice (by omega) last close
  obtain ⟨before, rest, walked, same, placed⟩ := walk_mono agree h
  refine ⟨before, rest, walked, same, fun m member c candle => ?_⟩
  obtain ⟨d, new, time⟩ := placed m member
  rw [time]
  exact order.2.2 c candle d (List.mem_of_mem_drop new)

theorem LogisticConfig.lines_growsTo (config : LogisticConfig α) {loss curve prediction other : List (Point α)}
    (front : loss <+: curve) (beside : prediction <+: other) :
    List.Forall₂ Line.GrowsTo (config.lines loss prediction) (config.lines curve other) := by
  refine List.rel_append ?_ (.cons ⟨rfl, rfl, rfl, rfl, front⟩ .nil)
  split
  · exact .cons ⟨rfl, rfl, rfl, rfl, front⟩ (.cons ⟨rfl, rfl, rfl, rfl, beside⟩ .nil)
  · exact .nil

theorem LogisticConfig.run_mono {config : LogisticConfig α} {after : Outcome α} (valid : config.isValid)
    (enough : config.minCandles ≤ history.length) (extended : history.candles <+: later.candles)
    (h : config.run later = .ok after) :
    ∃ before, config.run history = .ok before ∧ before.GrowsTo history after := by
  simp only [LogisticConfig.isValid, Bool.and_eq_true, decide_eq_true_eq] at valid
  unfold LogisticConfig.minCandles at enough
  have closes := closes_isFront extended
  have times := (times_isFront extended).extended
  obtain ⟨scores, scored, h⟩ := bind_ok h
  obtain ⟨curve, scaled, h⟩ := bind_ok h
  obtain ⟨other, mapped, h⟩ := bind_ok h
  obtain ⟨markers, walked, h⟩ := bind_ok h
  obtain rfl := pure_ok h
  obtain ⟨first, score, front⟩ := scores_mono closes scored
  have window : config.normalization ≤ history.length := by omega
  obtain ⟨loss, scale, losses⟩ := rescale_mono (front.map (·.loss)) closes valid.2 window scaled
  obtain ⟨prediction, map, predictions⟩ := rescale_mono (front.map (·.prediction)) closes valid.2 window mapped
  obtain ⟨before, rest, walk, rfl, behind⟩ := LogisticConfig.markers_mono extended losses predictions walked
  refine ⟨{ indicator := some (config.result history loss prediction), markers := before }, ?_, ?_,
    rest, rfl, behind⟩
  · simp only [LogisticConfig.run, score, scale, map, walk, ok_bind]
    rfl
  · refine .some ⟨rfl, rfl, config.lines_growsTo ?_ ?_⟩
    · exact drop_zipWith_mono times losses.extended _
    · exact drop_zipWith_mono times predictions.extended _

theorem RegressionConfig.run_mono {config : RegressionConfig} {after : Outcome α}
    (extended : history.candles <+: later.candles) (h : config.run later = .ok after) :
    ∃ before, config.run history = .ok before ∧ before.GrowsTo history after := by
  have closes := (closes_isFront extended).extended
  have times := (times_isFront extended).extended
  obtain ⟨average, averaged, h⟩ := bind_ok h
  obtain rfl := pure_ok h
  obtain ⟨front, short, grown⟩ := emaContinuous_mono closes averaged
  refine ⟨{ indicator := some (config.result history front) }, by rw [RegressionConfig.run, short]; rfl, ?_⟩
  refine Outcome.growsTo_of_result ⟨rfl, rfl, .cons ?_ (.cons ?_ .nil)⟩
  · exact ⟨rfl, rfl, rfl, rfl, pointsOf_mono times (regressionLine_causal _ closes)⟩
  · exact ⟨rfl, rfl, rfl, rfl, drop_zipWith_mono times grown _⟩

theorem BullBearConfig.run_mono {config : BullBearConfig α} {after : Outcome α} (valid : config.isValid)
    (enough : config.minCandles ≤ history.length) (extended : history.candles <+: later.candles)
    (h : config.run later = .ok after) :
    ∃ before, config.run history = .ok before ∧ before.GrowsTo history after := by
  simp only [BullBearConfig.isValid, Bool.and_eq_true, decide_eq_true_eq] at valid
  unfold BullBearConfig.minCandles at enough
  have window : 1 ≤ config.window := valid.1.1
  have closes := closes_isFront extended
  have times := times_isFront extended
  obtain ⟨powers, measured, h⟩ := bind_ok h
  obtain ⟨⟨direction, colors⟩, directed, h⟩ := bind_ok h
  obtain ⟨traces, split, h⟩ := bind_ok h
  obtain rfl := pure_ok h
  obtain ⟨front, measure, bull, bear⟩ := bullBearPower_mono closes window (by omega) measured
  obtain ⟨⟨values, hues⟩, direct, value, hue⟩ := direction_mono bull bear window (by omega) directed
  obtain ⟨pair, separate, rising, falling⟩ := splitDirection_mono times value hue (by omega) split
  refine ⟨{ indicator := some (config.result history front pair) }, ?_, ?_⟩
  · simp only [BullBearConfig.run, measure, direct, separate, ok_bind]
    rfl
  · refine Outcome.growsTo_of_result ⟨rfl, rfl, .cons ?_ (.cons ?_ (.cons ?_ (.cons ?_ .nil)))⟩
    · exact ⟨rfl, rfl, rfl, rfl, drop_zipWith_mono times.extended bear.extended _⟩
    · exact ⟨rfl, rfl, rfl, rfl, drop_zipWith_mono times.extended bull.extended _⟩
    · exact ⟨rfl, rfl, rfl, rfl, rising⟩
    · exact ⟨rfl, rfl, rfl, rfl, falling⟩

/-- An engine that runs over the earlier candles already. -/
theorem Engine.run_mono {e : Engine α} {after : Outcome α} (runs : e.Runs history)
    (extended : history.candles <+: later.candles) (h : e.run later = .ok after) :
    ∃ before, e.run history = .ok before ∧ before.GrowsTo history after := by
  cases e with
  | logistic config => exact LogisticConfig.run_mono runs.1 runs.2 extended h
  | regression config => exact RegressionConfig.run_mono extended h
  | bullBear config => exact BullBearConfig.run_mono runs.1 runs.2 extended h

/-! ### Drawings -/

/-- A drawing grows with the history, unless it is of an engine that is short of candles so far. -/
theorem Drawing.outcome?_mono {d : Drawing α} {after : Outcome α} (extended : history.candles <+: later.candles)
    (h : d.outcome? later = .ok after) :
    ∃ before, d.outcome? history = .ok before ∧
      (before.GrowsTo history after ∨
        ∃ e, d = .engine e ∧ e.isValid ∧ history.length < e.minCandles ∧ before = { }) := by
  cases d with
  | indicator d colorIndex =>
    obtain ⟨result, calculated, h⟩ := bind_ok h
    obtain rfl := pure_ok h
    rw [Descriptor.calculate_eq_sketch] at calculated
    obtain ⟨sketch, sketched, rfl⟩ := map_ok calculated
    refine ⟨_, by rw [Drawing.outcome?, Descriptor.calculate_eq_sketch, sketched]; rfl, Or.inl ?_⟩
    cases sketch with
    | none => exact Outcome.growsTo_empty history
    | some s => exact Outcome.growsTo_of_result (s.result_growsTo extended)
  | engine e =>
    simp only [Drawing.outcome?, Engine.compute] at h ⊢
    have longer := extended.length_le
    by_cases runs : e.Runs history
    · have still : e.Runs later := ⟨runs.1, by have := runs.2; unfold History.length at this ⊢; omega⟩
      rw [if_pos still] at h
      obtain ⟨before, ran, grown⟩ := e.run_mono runs extended h
      exact ⟨before, by rw [if_pos runs, ran], Or.inl grown⟩
    · refine ⟨{ }, by rw [if_neg runs], ?_⟩
      by_cases valid : e.isValid
      · exact Or.inr ⟨e, rfl, valid, Int.not_le.mp fun enough => runs ⟨valid, enough⟩, rfl⟩
      · rw [if_neg fun runs => valid runs.1] at h
        obtain rfl := Except.ok.inj h
        exact Or.inl (Outcome.growsTo_empty history)

end Histories

/-! ### Markers -/

/-- Whether a time is not after the last candle. -/
def History.reaches (history : History α) (t : Int) : Bool := history.times.getLast?.any (t ≤ ·)

theorem reaches_of_mem {history : History α} {c : Candle α} (candle : c ∈ history.candles) :
    history.reaches c.time := by
  have order : history.times.Pairwise (· < ·) := List.pairwise_map.mpr history.ordered
  have member : c.time ∈ history.times := List.mem_map_of_mem candle
  obtain ⟨front, last, times⟩ : ∃ front last, history.times = front ++ [last] :=
    ⟨_, _, (List.dropLast_append_getLast (List.ne_nil_of_mem member)).symm⟩
  rw [times] at order member
  simp only [History.reaches, times, List.getLast?_concat, Option.any_some, decide_eq_true_eq]
  rcases List.mem_append.mp member with before | here
  · exact Int.le_of_lt ((List.pairwise_append.mp order).2.2 _ before last (List.mem_singleton.mpr rfl))
  · exact Int.le_of_eq (List.mem_singleton.mp here)

theorem reaches_of_le {history : History α} {s t : Int} (le : s ≤ t) (reached : history.reaches t) :
    history.reaches s := by
  obtain ⟨last, found, before⟩ := (Option.any_eq_true _ _).mp reached
  have before : t ≤ last := of_decide_eq_true before
  exact (Option.any_eq_true _ _).mpr ⟨last, found, decide_eq_true (by omega)⟩

theorem not_reaches_of_lt {history : History α} {t : Int} (later : ∀ c ∈ history.candles, c.time < t) :
    history.reaches t = false := by
  rw [History.reaches, Option.any_eq_false]
  intro last found
  obtain ⟨c, candle, rfl⟩ := List.mem_map.mp (List.mem_of_getLast? found)
  exact decide_eq_false (Int.not_le.mpr (later c candle))

variable [Arith α] {history later : History α}

theorem Engine.markers_of_run {e : Engine α} {o : Outcome α} (quiet : ∀ config, e ≠ .logistic config)
    (h : e.run history = .ok o) : o.markers = [] := by
  cases e with
  | logistic config => exact (quiet config rfl).elim
  | regression config =>
    obtain ⟨average, _, h⟩ := bind_ok h
    rw [← pure_ok h]
  | bullBear config =>
    obtain ⟨powers, _, h⟩ := bind_ok h
    obtain ⟨⟨direction, colors⟩, _, h⟩ := bind_ok h
    obtain ⟨traces, _, h⟩ := bind_ok h
    rw [← pure_ok h]

/-- The markers of a drawing up to the last candle are settled, if its engine had enough candles to place
markers. -/
theorem Drawing.markers_mono {d : Drawing α} (extended : history.candles <+: later.candles)
    (succeeds : ∃ o, d.outcome? later = .ok o)
    (enough : ∀ config, d = .engine (.logistic config) → config.isValid → config.minCandles ≤ history.length) :
    d.markers history = (d.markers later).filter (history.reaches ·.time) := by
  obtain ⟨after, drawn⟩ := succeeds
  obtain ⟨before, draw, grown⟩ := Drawing.outcome?_mono extended drawn
  rw [Drawing.markers, Drawing.markers, Drawing.outcome_eq drawn, Drawing.outcome_eq draw]
  rcases grown with grown | ⟨e, rfl, valid, short, rfl⟩
  · obtain ⟨rest, same, behind⟩ := grown.markers
    have settled : before.markers.filter (history.reaches ·.time) = before.markers := by
      refine List.filter_eq_self.mpr fun m member => ?_
      obtain ⟨c, candle, placed⟩ := (Drawing.outcome?_isPlaced draw).markers m member
      rw [placed]
      exact reaches_of_mem candle
    have added : rest.filter (history.reaches ·.time) = [] := by
      refine List.filter_eq_nil_iff.mpr fun m member => ?_
      rw [not_reaches_of_lt (behind m member)]
      exact Bool.false_ne_true
    rw [same, List.filter_append, settled, added, List.append_nil]
  · have quiet (config : LogisticConfig α) : e ≠ .logistic config := by
      rintro rfl
      exact absurd short (Int.not_lt.mpr (enough config rfl valid))
    have none : after.markers = [] := by
      simp only [Drawing.outcome?, Engine.compute] at drawn
      split at drawn
      · exact Engine.markers_of_run quiet drawn
      · rw [← Except.ok.inj drawn]
    rw [none]
    rfl

/-- A result stays and grows; one that is still missing is that of an engine that is short of candles. -/
theorem Drawing.result?_mono {d : Drawing α} (extended : history.candles <+: later.candles)
    (succeeds : ∃ o, d.outcome? later = .ok o) :
    (∀ r, d.result? history = some r → ∃ s, d.result? later = some s ∧ r.GrowsTo s) ∧
      ∀ s, d.result? later = some s → d.result? history = none →
        ∃ e, d = .engine e ∧ history.length < e.minCandles := by
  obtain ⟨after, drawn⟩ := succeeds
  obtain ⟨before, draw, grown⟩ := Drawing.outcome?_mono extended drawn
  rw [Drawing.result?, Drawing.result?, Drawing.outcome_eq drawn, Drawing.outcome_eq draw]
  rcases grown with ⟨result, _⟩ | ⟨e, rfl, _, short, rfl⟩
  · generalize before.indicator = r, after.indicator = s at result
    cases result with
    | none => simp
    | some grows => simpa using grows
  · simp [short]

/-- How the bundle `before` of a plan over a history goes on in its bundle `after` over more candles. -/
structure Plan.Unrepainted (history later : History α) (plan : Plan α) (before after : Bundle α) : Prop where
  nextColorIndex : before.nextColorIndex = after.nextColorIndex
  results : before.results = plan.drawings.filterMap (·.result? history)
  laterResults : after.results = plan.drawings.filterMap (·.result? later)
  grows : ∀ d ∈ plan.drawings, ∀ r, d.result? history = some r → ∃ s, d.result? later = some s ∧ r.GrowsTo s
  missing : ∀ d ∈ plan.drawings, ∀ s, d.result? later = some s → d.result? history = none →
    ∃ e, d = .engine e ∧ history.length < e.minCandles
  /-- The markers up to the last candle are settled if every logistic regression had enough candles. -/
  markers :
    (∀ config : LogisticConfig α, .engine (.logistic config) ∈ plan.drawings → config.isValid →
      config.minCandles ≤ history.length) →
    before.markers = after.markers.filter (history.reaches ·.time) ∧
      before.markers = after.markers.takeWhile (history.reaches ·.time)

/-- A batch that succeeds over more candles succeeds over fewer, and what it draws there is not repainted. -/
theorem overlays?_unrepainted {scripts : List Text} {colorIndex : Int} {after : Bundle α}
    (extended : history.candles <+: later.candles) (h : overlays? later scripts colorIndex = .ok after) :
    ∃ plan before, Plan.ofScripts? colorIndex scripts = .ok plan ∧
      overlays? history scripts colorIndex = .ok before ∧ plan.Unrepainted history later before after := by
  obtain ⟨plan, planned, succeeds, rfl⟩ := overlays?_ok_iff_plan.mp h
  have succeed : plan.Succeeds history := by
    intro d member
    obtain ⟨o, drawn⟩ := succeeds d member
    obtain ⟨before, draw, _⟩ := Drawing.outcome?_mono extended drawn
    exact ⟨before, draw⟩
  have single (d : Drawing α) (member : d ∈ plan.drawings) := Drawing.result?_mono extended (succeeds d member)
  refine ⟨plan, _, planned, overlays?_ok_iff_plan.mpr ⟨plan, planned, succeed, rfl⟩, rfl, rfl, rfl,
    fun d member => (single d member).1, fun d member => (single d member).2, fun enough => ?_⟩
  have order := sorted_markers (plan.bundle later)
  have raw : (plan.bundle history).markers = (plan.bundle later).markers.filter (history.reaches ·.time) := by
    rw [Plan.bundle, Plan.bundle, List.filter_flatMap]
    refine List.flatMap_congr fun d member => ?_
    exact Drawing.markers_mono extended (succeeds d member) fun config same => enough config (same ▸ member)
  have kept := (sorted_markers (plan.bundle history)).unique (raw ▸ order.filter)
  exact ⟨kept, kept.trans (takeWhile_eq_filter order.ordered fun a b => reaches_of_le).symm⟩

/-- The seven bars of `turningHistory` and one more. -/
def turnedHistory : History Float where
  candles := turningHistory.candles ++ [⟨9, 3.0, 4.0, 2.0, 3.0, none⟩]
  ordered := by decide

/-- Two windows that seven bars are enough for, and one that they are too few for. -/
def wideningScripts : List Text := "ML3 window = input(defval=3) smooth = input(defval=false)" :: turningScripts

theorem overlays?_unrepainted_of_turning :
    turningHistory.candles <+: turnedHistory.candles ∧
      ∃ after, overlays? turnedHistory wideningScripts 0 = .ok after ∧
      ∃ plan before, Plan.ofScripts? 0 wideningScripts = .ok plan ∧
        overlays? turningHistory wideningScripts 0 = .ok before ∧
        plan.Unrepainted turningHistory turnedHistory before after := by
  have extended : turningHistory.candles <+: turnedHistory.candles := List.prefix_append _ _
  have succeeds : (overlays? turnedHistory wideningScripts 0).isOk := by decide +kernel
  cases drawn : overlays? turnedHistory wideningScripts 0 with
  | ok after => exact ⟨extended, after, rfl, overlays?_unrepainted extended drawn⟩
  | error e =>
    rw [drawn] at succeeds
    cases succeeds

end ChartOverlay
