import ChartOverlay.Proofs.Batch
import ChartOverlay.Proofs.Descriptors
import ChartOverlay.Proofs.Sums

/-!
# Accounting of indicators

Scripts without an engine cannot fail over any history once they are read. Every line that asks for an
indicator takes one color counter, whether it is drawn or not, and `overlays?_generic` says what a batch of
them draws, how little the counter changes, and that engines between them change nothing.
-/

namespace ChartOverlay

open Arith

variable {α : Type} [Arith α]

namespace Descriptor

/-- A period without its fraction; one that is not given counts as zero. -/
def periodOf (d : Descriptor α) (name : String) : Int :=
  ((List.lookup (name : Text) d.params).map trunc).getD 0

/-- Whether all periods of an indicator are at least one. -/
def hasPeriods (d : Descriptor α) : Bool := (periodNames d.kind).all fun name => 1 ≤ d.periodOf name

/-- Whether the line of an indicator takes its color from the counter. -/
def isUncolored (d : Descriptor α) : Bool := (d.kind = .sma || d.kind = .ema || d.kind = .rsi) && d.color.isNone

/-- The result of an indicator as another counter colors it. -/
def recolored (d : Descriptor α) (colorIndex : Int) (r : Result α) : Result α :=
  if d.isUncolored then
    { r with lines := r.lines.map fun line => { line with color := defaultColor colorIndex } }
  else r

/-- What an indicator comes to under a color counter: its own calculation, and for a single line the color it
names or the default one whose place is the remainder of the counter by eight. -/
structure Draws (history : History α) (colorIndex : Int) (d : Descriptor α) (r : Result α) : Prop where
  calculated : d.calculate history colorIndex = .ok (some r)
  color : d.kind = .sma ∨ d.kind = .ema ∨ d.kind = .rsi → ∃ line, r.lines = [line] ∧
    (∀ own, d.color = some own → line.color = own) ∧
    (d.color = none → defaultColors[(colorIndex % 8).toNat]? = some line.color)

/-- The result of an indicator whose periods allow one. -/
def resultOf (d : Descriptor α) (history : History α) (colorIndex : Int) : Result α :=
  let closes := history.closes
  let times := history.times
  let period := d.periodOf "period"
  match d.kind with
  | .sma => d.single (d.lineColor colorIndex) (pointsOf times (sma closes period)) 2
  | .ema => d.single (d.lineColor colorIndex) (pointsOf times (ema closes period)) 2
  | .rsi => d.single (d.lineColor colorIndex) (pointsOf times (rsi closes period)) 1
  | .macd =>
    let lines := macd closes (d.periodOf "fast") (d.periodOf "slow") (d.periodOf "signal")
    macdResult times lines.1 lines.2
  | .bb => d.bandResult times (bollinger closes period ((List.lookup ("stddev" : Text) d.params).getD 0.0))

theorem period?_eq {d : Descriptor α} {name : String}
    (finite : ∀ x, List.lookup (name : Text) d.params = some x → isFinite x) :
    d.period? name = .ok (if 1 ≤ d.periodOf name then some (d.periodOf name) else none) := by
  unfold period? periodOf
  cases found : List.lookup (name : Text) d.params with
  | none => rfl
  | some x =>
    have whole : trunc? x = .ok (trunc x) := if_pos (finite x found)
    simp only [whole]
    rfl

/-- A sound descriptor is calculated over every history, to a result if its periods allow one. -/
theorem calculate_eq {d : Descriptor α} (sound : d.IsSound) (history : History α) (colorIndex : Int) :
    d.calculate history colorIndex =
      .ok (if d.hasPeriods then some (d.resultOf history colorIndex) else none) := by
  have finite := sound.finite
  -- the periods of a kind are read in a row, and the first below one ends the calculation
  unfold calculate hasPeriods resultOf
  cases kind : d.kind with
  | sma | ema | rsi =>
    rw [kind] at finite
    have whole := period?_eq (finite "period" (by decide))
    by_cases positive : 1 ≤ d.periodOf "period" <;>
      simp [whole, periodNames, positive, pure, Except.pure]
  | macd =>
    rw [kind] at finite
    have whole := period?_eq (finite "fast" (by decide))
    have whole' := period?_eq (finite "slow" (by decide))
    have whole'' := period?_eq (finite "signal" (by decide))
    by_cases fast : 1 ≤ d.periodOf "fast"
    · by_cases slow : 1 ≤ d.periodOf "slow"
      · by_cases signal : 1 ≤ d.periodOf "signal" <;>
          simp [whole, whole', whole'', periodNames, fast, slow, signal, pure, Except.pure]
      · simp [whole, whole', periodNames, fast, slow, pure, Except.pure]
    · simp [whole, periodNames, fast, pure, Except.pure]
  | bb =>
    rw [kind] at finite
    have whole := period?_eq (finite "period" (by decide))
    obtain ⟨width, found⟩ := sound.width kind
    by_cases positive : 1 ≤ d.periodOf "period" <;>
      simp [whole, periodNames, positive, parameter?, found, pure, Except.pure]

theorem defaultColors_defaultColor (colorIndex : Int) :
    defaultColors[(colorIndex % 8).toNat]? = some (defaultColor colorIndex) := by
  have inside : (colorIndex % 8).toNat < defaultColors.length := by
    show _ < 8
    omega
  rw [defaultColor, List.getElem?_eq_getElem inside]
  rfl

theorem defaultColor_add (colorIndex k : Int) :
    defaultColor (colorIndex + 8 * k) = defaultColor colorIndex := by
  rw [defaultColor, defaultColor, Int.add_mul_emod_self_left]

theorem lineColor_of_some {d : Descriptor α} (sound : d.IsSound) {own : Text} (named : d.color = some own)
    (colorIndex : Int) : d.lineColor colorIndex = own := by
  have visible : own ≠ "" := by
    rintro rfl
    exact sound.color named
  rw [lineColor, named]
  exact if_neg visible

omit [Arith α] in
theorem lineColor_of_none {d : Descriptor α} (unnamed : d.color = none) (colorIndex : Int) :
    d.lineColor colorIndex = defaultColor colorIndex := by
  rw [lineColor, unnamed]

theorem resultOf_draws {d : Descriptor α} (sound : d.IsSound) (positive : d.hasPeriods) (history : History α)
    (colorIndex : Int) : d.Draws history colorIndex (d.resultOf history colorIndex) where
  calculated := by rw [calculate_eq sound, if_pos positive]
  color := by
    intro simple
    have color : (∀ own, d.color = some own → d.lineColor colorIndex = own) ∧
        (d.color = none → defaultColors[(colorIndex % 8).toNat]? = some (d.lineColor colorIndex)) := by
      constructor
      · intro own named
        exact lineColor_of_some sound named colorIndex
      · intro unnamed
        rw [lineColor_of_none unnamed, defaultColors_defaultColor]
    rcases simple with kind | kind | kind
    all_goals
      unfold resultOf
      rw [kind]
      exact ⟨_, rfl, color⟩

/-- Another counter changes the default color of a line and nothing else. -/
theorem resultOf_eq_recolored {d : Descriptor α} (sound : d.IsSound) (history : History α) (i j : Int) :
    d.resultOf history j = d.recolored j (d.resultOf history i) := by
  unfold recolored isUncolored
  cases color : d.color with
  | some own =>
    have same : d.lineColor j = d.lineColor i := by
      rw [lineColor_of_some sound color, lineColor_of_some sound color]
    simp [resultOf, same]
  | none =>
    unfold resultOf
    cases kind : d.kind <;> simp [single, lineColor_of_none color]

end Descriptor

/-! ### Batches -/

/-- The results of indicators in a row, from a color counter on. -/
def drawnFrom (history : History α) (colorIndex : Int) : List (Descriptor α) → List (Result α)
  | [] => []
  | d :: rest =>
    (if d.hasPeriods then [d.resultOf history colorIndex] else []) ++ drawnFrom history (colorIndex + 1) rest

/-- The indicators that are drawn, each with the number of those before it, drawn or not. -/
def drawable (ds : List (Descriptor α)) : List (Descriptor α × Nat) := ds.zipIdx.filter (·.1.hasPeriods)

theorem drawnFrom_append (history : History α) (colorIndex : Int) (first second : List (Descriptor α)) :
    drawnFrom history colorIndex (first ++ second) =
      drawnFrom history colorIndex first ++ drawnFrom history (colorIndex + first.length) second := by
  induction first generalizing colorIndex with
  | nil => simp [drawnFrom]
  | cons d rest ih =>
    have counter : colorIndex + 1 + rest.length = colorIndex + (d :: rest).length := by
      simp only [List.length_cons]
      omega
    rw [List.cons_append, drawnFrom, drawnFrom, ih, counter, List.append_assoc]

theorem drawnFrom_eq_map (history : History α) (colorIndex : Int) (ds : List (Descriptor α)) (k : Nat) :
    drawnFrom history (colorIndex + k) ds =
      ((ds.zipIdx k).filter (·.1.hasPeriods)).map fun p => p.1.resultOf history (colorIndex + p.2) := by
  induction ds generalizing k with
  | nil => rfl
  | cons d rest ih =>
    have counter : colorIndex + k + 1 = colorIndex + (k + 1 : Nat) := by omega
    rw [drawnFrom, counter, ih, List.zipIdx_cons, List.filter_cons]
    cases d.hasPeriods <;> simp

theorem drawnFrom_eq (history : History α) (colorIndex : Int) (ds : List (Descriptor α)) :
    drawnFrom history colorIndex ds = (drawable ds).map fun p => p.1.resultOf history (colorIndex + p.2) := by
  have counter : colorIndex = colorIndex + (0 : Nat) := by omega
  rw [counter, drawnFrom_eq_map]
  simp [drawable]

theorem ofIndicators?_eq {ds : List (Descriptor α)} (sound : ∀ d ∈ ds, d.IsSound) (history : History α)
    (colorIndex : Int) : Bundle.ofIndicators? history colorIndex ds =
      .ok { results := drawnFrom history colorIndex ds, nextColorIndex := colorIndex + ds.length } := by
  induction ds generalizing colorIndex with
  | nil => simp [Bundle.ofIndicators?, drawnFrom]
  | cons d rest ih =>
    have counter : colorIndex + 1 + rest.length = colorIndex + (d :: rest).length := by
      simp only [List.length_cons]
      omega
    have here := Descriptor.calculate_eq (sound d List.mem_cons_self) history colorIndex
    have later := ih (fun d member => sound d (List.mem_cons_of_mem _ member)) (colorIndex + 1)
    rw [Bundle.ofIndicators?, here, ok_bind, later, ok_bind, counter, drawnFrom]
    cases d.hasPeriods <;> rfl

/-- Whether a script is a list of indicator lines. -/
def isGeneric (script : Text) : Bool := Script.kindOf script = .generic

/-- What the lines of scripts ask for, in order, if all of them can be read. -/
def descriptors? (scripts : List Text) : Except ScriptError (List (Descriptor α)) :=
  List.flatten <$> scripts.mapM Script.indicators?

/-- An engine script that can be read and computed. -/
def EngineRuns (history : History α) (script : Text) : Prop :=
  ∃ engine outcome, Script.ofText? script = .ok (.engine engine) ∧ engine.compute history = .ok outcome

/-- What a script of a batch draws: an engine its own result whatever stands before it, and nothing is said of
indicators. -/
def EngineDraws (history : History α) (script : Text) (results : List (Result α)) : Prop :=
  ∀ engine outcome, Script.ofText? script = .ok (.engine engine) → engine.compute history = .ok outcome →
    results = outcome.indicator.toList

theorem descriptors?_cons {script : Text} {rest : List Text} {ds : List (Descriptor α)}
    (h : descriptors? (script :: rest) = .ok ds) : ∃ first later,
      Script.indicators? script = .ok first ∧ descriptors? rest = .ok later ∧ ds = first ++ later := by
  obtain ⟨all, read, rfl⟩ := map_ok h
  rw [List.mapM_cons] at read
  obtain ⟨first, here, read⟩ := bind_ok read
  obtain ⟨later, there, read⟩ := bind_ok read
  obtain rfl := pure_ok read
  refine ⟨first, later.flatten, here, ?_, List.flatten_cons⟩
  rw [descriptors?, there]
  rfl

theorem ofText?_generic {script : Text} (generic : isGeneric script) {ds : List (Descriptor α)}
    (read : Script.indicators? script = .ok ds) : Script.ofText? script = .ok (.generic ds) := by
  have kind : Script.kindOf script = .generic := of_decide_eq_true generic
  rw [Script.ofText?, kind]
  simp only [read]
  rfl

theorem descriptors?_isSound {scripts : List Text} {ds : List (Descriptor α)}
    (h : descriptors? scripts = .ok ds) : ∀ d ∈ ds, d.IsSound := by
  obtain ⟨all, read, rfl⟩ := map_ok h
  intro d member
  obtain ⟨asked, inside, member⟩ := List.mem_flatten.mp member
  obtain ⟨script, -, read⟩ := mem_of_mapM read inside
  exact Script.indicators?_isSound read d member

/-- A batch of indicator scripts among engine scripts that do not fail: the indicators come to what they come to
alone, under the same color counters. -/
theorem ofScripts?_batch (history : History α) {batch : List Text} {ds : List (Descriptor α)}
    (read : descriptors? (batch.filter isGeneric) = .ok ds)
    (engines : ∀ script ∈ batch, ¬isGeneric script → EngineRuns history script) (colorIndex : Int) :
    ∃ (markers : List (Marker α)) (parts : List (Text × List (Result α))),
      Bundle.ofScripts? history colorIndex batch =
        .ok { results := parts.flatMap (·.2), markers, nextColorIndex := colorIndex + ds.length } ∧
      parts.map (·.1) = batch ∧
      (parts.filter (isGeneric ·.1)).flatMap (·.2) = drawnFrom history colorIndex ds ∧
      ∀ part ∈ parts, EngineDraws history part.1 part.2 := by
  induction batch generalizing colorIndex ds with
  | nil =>
    obtain rfl : [] = ds := Except.ok.inj read
    exact ⟨[], [], by simp [Bundle.ofScripts?], rfl, rfl, nofun⟩
  -- only an indicator script moves the counter and takes its part of what is asked for
  | cons script rest ih =>
    have later := fun other member => engines other (List.mem_cons_of_mem script member)
    by_cases generic : isGeneric script
    · rw [List.filter_cons_of_pos generic] at read
      obtain ⟨first, ds, here, there, rfl⟩ := descriptors?_cons read
      have sound := Script.indicators?_isSound here
      have asked := ofText?_generic generic here
      obtain ⟨markers, parts, ran, scripts, drawn, draws⟩ := ih there later (colorIndex + first.length)
      refine ⟨markers, (script, drawnFrom history colorIndex first) :: parts, ?_,
        by rw [List.map_cons, scripts], ?_, ?_⟩
      · have counter : colorIndex + first.length + ds.length = colorIndex + (first ++ ds).length := by
          simp only [List.length_append]
          omega
        rw [Bundle.ofScripts?, Bundle.ofScript?, asked]
        simp only [Except.mapError, ok_bind, ofIndicators?_eq sound, ran, counter]
        rfl
      · simp only [List.filter_cons, generic, if_true, List.flatMap_cons, drawn, drawnFrom_append]
      · intro part member
        rcases List.mem_cons.mp member with rfl | member
        · intro engine outcome isEngine
          cases asked.symm.trans isEngine
        · exact draws part member
    · rw [List.filter_cons_of_neg generic] at read
      obtain ⟨engine, outcome, asked, computed⟩ := engines script List.mem_cons_self generic
      obtain ⟨markers, parts, ran, scripts, drawn, draws⟩ := ih read later colorIndex
      refine ⟨outcome.markers ++ markers, (script, outcome.indicator.toList) :: parts, ?_,
        by rw [List.map_cons, scripts], ?_, ?_⟩
      · rw [Bundle.ofScripts?, Bundle.ofScript?, asked]
        simp only [Except.mapError, ok_bind, computed, pure_bind, ran]
        rfl
      · simp only [List.filter_cons, generic, if_false, Bool.false_eq_true, drawn]
      · intro part member
        rcases List.mem_cons.mp member with rfl | member
        · intro engine' outcome' asked' computed'
          cases asked.symm.trans asked'
          cases computed.symm.trans computed'
          rfl
        · exact draws part member

theorem engineMarkers_generic {history : History α} {script : Text} (generic : isGeneric script) :
    engineMarkers history script = [] := by
  have kind : Script.kindOf script = .generic := of_decide_eq_true generic
  rw [engineMarkers, Script.ofText?, kind]
  cases (Script.indicators? script : Except ScriptError (List (Descriptor α))) <;> rfl

/-- Indicator scripts that can be read do not fail. -/
theorem overlays?_eq_drawnFrom {scripts : List Text} {ds : List (Descriptor α)}
    (generic : ∀ script ∈ scripts, isGeneric script) (read : descriptors? scripts = .ok ds)
    (history : History α) (colorIndex : Int) : overlays? history scripts colorIndex =
      .ok { results := drawnFrom history colorIndex ds, nextColorIndex := colorIndex + ds.length } := by
  have all : scripts.filter isGeneric = scripts := List.filter_eq_self.mpr generic
  obtain ⟨markers, parts, ran, same, drawn, -⟩ := ofScripts?_batch history (all.symm ▸ read)
    (fun script member engine => absurd (generic script member) engine) colorIndex
  have whole : parts.filter (isGeneric ·.1) = parts := by
    refine List.filter_eq_self.mpr fun part member => generic part.1 ?_
    exact same ▸ List.mem_map_of_mem member
  have silent : markers = [] := by
    have owned := Bundle.ofScripts?_markers ran
    rw [List.flatMap_eq_nil_iff.mpr fun script member => engineMarkers_generic (generic script member)] at owned
    exact owned
  subst silent
  rw [whole] at drawn
  exact overlays?_ok_iff.mpr ⟨_, ran, by simp [Bundle.sorted, drawn]⟩

theorem drawnFrom_recolored {ds : List (Descriptor α)} (sound : ∀ d ∈ ds, d.IsSound) (history : History α)
    (i j : Int) : drawnFrom history j ds =
      List.zipWith (fun p r => p.1.recolored (j + p.2) r) (drawable ds) (drawnFrom history i ds) := by
  rw [drawnFrom_eq, drawnFrom_eq, List.zipWith_map_right, List.zipWith_self]
  refine List.map_congr_left fun p member => ?_
  have inside := List.mem_zipIdx' (List.mem_filter.mp member).1
  exact Descriptor.resultOf_eq_recolored (sound _ (inside.2 ▸ List.getElem_mem _)) history _ _

/-- Eight counters further the default colors are the same. -/
theorem drawnFrom_add (history : History α) (colorIndex k : Int) (ds : List (Descriptor α)) :
    drawnFrom history (colorIndex + 8 * k) ds = drawnFrom history colorIndex ds := by
  induction ds generalizing colorIndex with
  | nil => rfl
  | cons d rest ih =>
    have color : d.lineColor (colorIndex + 8 * k) = d.lineColor colorIndex := by
      unfold Descriptor.lineColor
      rw [Descriptor.defaultColor_add]
    have here : d.resultOf history (colorIndex + 8 * k) = d.resultOf history colorIndex := by
      unfold Descriptor.resultOf
      rw [color]
    have later : colorIndex + 8 * k + 1 = colorIndex + 1 + 8 * k := by omega
    rw [drawnFrom, drawnFrom, here, later, ih]

/-- Scripts without an engine that can be read never fail, over any history and from any color counter. They
draw one result for each indicator whose periods are at least one, in order; every indicator takes one counter,
drawn or not, and a line that names no color takes the default one of its counter. So runs from two counters
differ in default colors only, eight counters make no difference, and engine scripts among the others change
nothing. No band takes the root of something below zero. -/
theorem overlays?_generic {scripts : List Text} {ds : List (Descriptor Float)}
    (generic : ∀ script ∈ scripts, isGeneric script) (read : descriptors? scripts = .ok ds)
    (history : History Float) (c : Int) :
    ∃ b, overlays? history scripts c = .ok b ∧
      b.markers = [] ∧ b.nextColorIndex = c + ds.length ∧
      List.Forall₂ (fun p r => p.1.Draws history (c + p.2) r) (drawable ds) b.results ∧
      (∀ k, overlays? history scripts (c + 8 * k) =
        .ok { b with nextColorIndex := b.nextColorIndex + 8 * k }) ∧
      (∀ c', overlays? history scripts c' = .ok {
        b with
        results := List.zipWith (fun p r => p.1.recolored (c' + p.2) r) (drawable ds) b.results
        nextColorIndex := c' + ds.length }) ∧
      (∀ batch, batch.filter isGeneric = scripts →
        (∀ script ∈ batch, ¬isGeneric script → EngineRuns history script) →
        ∃ (whole : Bundle Float) (parts : List (Text × List (Result Float))),
          overlays? history batch c = .ok whole ∧
          whole.nextColorIndex = b.nextColorIndex ∧ whole.results = parts.flatMap (·.2) ∧
          parts.map (·.1) = batch ∧ (parts.filter (isGeneric ·.1)).flatMap (·.2) = b.results ∧
          ∀ part ∈ parts, EngineDraws history part.1 part.2) ∧
      ∀ (n : Int) (window : List Float), 1 ≤ n →
        deviation n window = sqrt (radicand n window) ∧ lt (radicand n window) 0.0 = false := by
  have sound := descriptors?_isSound read
  have ran := overlays?_eq_drawnFrom generic read history
  refine ⟨_, ran c, rfl, rfl, ?_, ?_, ?_, ?_, ?_⟩
  · rw [drawnFrom_eq, List.forall₂_map_right_iff]
    refine List.forall₂_same.mpr fun p member => ?_
    obtain ⟨inside, positive⟩ := List.mem_filter.mp member
    have known := sound _ ((List.mem_zipIdx' inside).2 ▸ List.getElem_mem _)
    exact Descriptor.resultOf_draws known positive history _
  · intro k
    have counter : c + 8 * k + ds.length = c + ds.length + 8 * k := by omega
    rw [ran, drawnFrom_add, counter]
  · intro c'
    rw [ran, drawnFrom_recolored sound history c c']
  · intro batch same engines
    obtain ⟨markers, parts, batchRan, scriptsOf, drawn, draws⟩ :=
      ofScripts?_batch history (same ▸ read) engines c
    exact ⟨_, parts, overlays?_ok_iff.mpr ⟨_, batchRan, rfl⟩, rfl, rfl, scriptsOf, drawn, draws⟩
  · intro n window positive
    exact ⟨deviation_eq n window, Double.radicand_not_lt_zero (by omega) window⟩

/-- Closes that are infinite or not a number. -/
def brokenHistory : History Float where
  candles := [(1, 1.0), (2, 1.0 / 0.0), (3, 0.0 / 0.0), (5, -1.0 / 0.0), (6, -2.5)].map
    fun (t, x) => ⟨t, x, x, x, x, none⟩
  ordered := by decide

def indicatorScripts : List Text :=
  ["SMA 2\nEMA 0\n// RSI 3", "sma(close, 3) color=#ff0000\nbb(close, 2, 1.5)", "macd(close, 1, 2, 2)"]

theorem overlays?_generic_of_broken :
    ∃ b : Bundle Float, overlays? brokenHistory indicatorScripts (-3) = .ok b ∧
      b.results.length = 4 ∧ b.nextColorIndex = 2 := by
  have generic : ∀ script ∈ indicatorScripts, isGeneric script := by decide +kernel
  have count : (descriptors? indicatorScripts : Except ScriptError (List (Descriptor Float))).toOption.map
      (fun ds => (ds.length, (drawable ds).length)) = some (5, 4) := by decide +kernel
  cases read : (descriptors? indicatorScripts : Except ScriptError (List (Descriptor Float))) with
  | error e =>
    rw [read] at count
    cases count
  | ok ds =>
    rw [read] at count
    obtain ⟨all, drawn⟩ := Prod.mk.inj (Option.some.inj count)
    obtain ⟨b, ran, -, counter, draws, -⟩ := overlays?_generic generic read brokenHistory (-3)
    refine ⟨b, ran, draws.length_eq.symm.trans drawn, ?_⟩
    rw [counter, all]
    rfl

end ChartOverlay
