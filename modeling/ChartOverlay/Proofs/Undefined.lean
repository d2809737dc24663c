import ChartOverlay.Proofs.Accounting
import ChartOverlay.Proofs.DoubleSpecial
import ChartOverlay.Proofs.Legibility
import ChartOverlay.Proofs.Moderate
import ChartOverlay.Proofs.Rescaling

/-!
# Undefined values that are drawn

Every average, index and deviation leaves out what is not a number. The difference of two averages and the bands are
calculated from such series, and nothing leaves out what is undefined there: two infinite averages on one side, or the
product of an infinite deviation and the width zero. `overlays?_points` says at which bars of which lines such values
are drawn, and that there are none for closes far from the end of the range of doubles.
-/

namespace ChartOverlay

open Arith

/-! ### Series -/

section Series
variable {α : Type} [Arith α] {times : List Int} {values : List α} {series : List (Option α)} {i : Nat}

/-- The defined entries of a series are numbers. -/
def IsNumeric (series : List (Option α)) : Prop := ∀ x, some x ∈ series → isNaN x = false

/-- The entry at a bar is defined, but not a number. -/
def IsBroken (series : List (Option α)) (i : Nat) : Prop := ∃ x, series[i]? = some (some x) ∧ isNaN x = true

theorem IsNumeric.not_isBroken (h : IsNumeric series) : ¬IsBroken series i := by
  rintro ⟨x, found, broken⟩
  rw [h x (List.mem_of_getElem? found)] at broken
  cases broken

theorem defined_eq_some_iff {x y : α} : defined x = some y ↔ isNaN x = false ∧ x = y := by
  rw [defined, ← Bool.not_eq_true]
  split <;> simp_all

theorem isNaN_of_defined {x y : α} (h : defined x = some y) : isNaN y = false := by
  obtain ⟨number, rfl⟩ := defined_eq_some_iff.mp h
  exact number

theorem isNumeric_rolling (period : Int) (f : List α → α) (values : List α) :
    IsNumeric (rolling period (fun window => defined (f window)) values) := by
  intro x member
  obtain ⟨k, -, entry⟩ := List.mem_map.mp member
  split at entry
  · exact isNaN_of_defined entry
  · cases entry

theorem isNumeric_ema (values : List α) (period : Int) : IsNumeric (ema values period) := by
  intro x member
  unfold ema at member
  split at member
  · rw [List.mem_append, List.mem_replicate, List.mem_map] at member
    obtain ⟨-, ⟨⟩⟩ | ⟨y, -, entry⟩ := member
    exact isNaN_of_defined entry
  · cases List.eq_of_mem_replicate member

theorem isNumeric_rsi (values : List α) (period : Int) : IsNumeric (rsi values period) := by
  intro x member
  obtain ⟨k, -, entry⟩ := List.mem_map.mp member
  split at entry
  · exact isNaN_of_defined entry
  · cases entry

theorem isNumeric_signalLine (line : List (Option α)) (period : Int) : IsNumeric (signalLine line period) := by
  intro x member
  have inside := List.mem_of_mem_take member
  rw [List.mem_append, List.mem_replicate] at inside
  obtain ⟨-, ⟨⟩⟩ | inside := inside
  exact isNumeric_ema _ _ x inside

theorem isBroken_zipDefined {f : α → α → α} {xs ys : List (Option α)} : IsBroken (zipDefined f xs ys) i ↔
    ∃ x y, xs[i]? = some (some x) ∧ ys[i]? = some (some y) ∧ isNaN (f x y) = true := by
  unfold IsBroken
  rw [zipDefined, List.getElem?_zipWith]
  rcases xs[i]? with _ | _ | x <;> rcases ys[i]? with _ | _ | y <;> simp

omit [Arith α] in
theorem mem_pointsOf {t : Int} {x : α} :
    ⟨t, x⟩ ∈ pointsOf times series ↔ ∃ i : Nat, times[i]? = some t ∧ series[i]? = some (some x) := by
  rw [pointsOf, List.mem_filterMap]
  constructor
  · rintro ⟨⟨s, v⟩, member, same⟩
    obtain ⟨y, rfl, ⟨⟩⟩ := Option.map_eq_some_iff.mp same
    obtain ⟨i, pair⟩ := List.mem_iff_getElem?.mp member
    exact ⟨i, List.getElem?_zip_eq_some.mp pair⟩
  · rintro ⟨i, pair⟩
    exact ⟨(t, some x), List.mem_of_getElem? (List.getElem?_zip_eq_some.mpr pair), rfl⟩

/-- An entry that is not a number is a point like any other. -/
theorem isNaN_pointsOf {t : Int} : (∃ x, ⟨t, x⟩ ∈ pointsOf times series ∧ isNaN x = true) ↔
    ∃ i : Nat, times[i]? = some t ∧ IsBroken series i := by
  simp only [mem_pointsOf]
  constructor
  · rintro ⟨x, ⟨i, time, entry⟩, broken⟩
    exact ⟨i, time, x, entry, broken⟩
  · rintro ⟨i, time, x, entry, broken⟩
    exact ⟨x, ⟨i, time, entry⟩, broken⟩

end Series

/-! ### Lines -/

namespace Descriptor
open Double

/-- The multiple of the deviation at which the bands of an indicator lie. -/
def widthOf (d : Descriptor Float) : Float := (List.lookup ("stddev" : Text) d.params).getD 0.0

/-- The series behind the lines of an indicator. -/
def seriesOf (d : Descriptor Float) (closes : List Float) : List (List (Option Float)) :=
  match d.kind with
  | .sma => [sma closes (d.periodOf "period")]
  | .ema => [ema closes (d.periodOf "period")]
  | .rsi => [rsi closes (d.periodOf "period")]
  | .macd =>
    let lines := macd closes (d.periodOf "fast") (d.periodOf "slow") (d.periodOf "signal")
    [lines.1, lines.2]
  | .bb =>
    let bands := bollinger closes (d.periodOf "period") d.widthOf
    [bands.upper, bands.middle, bands.lower]

/-- Whether a band is not a number although its average and its deviation are: their product with the width is
indefinite, or average and product are infinite, on sides that the band tells. -/
def IsBandTorn (d : Descriptor Float) (closes : List Float) (i : Nat) (sides : Float → Float → Prop) : Prop :=
  ∃ middle spread, (sma closes (d.periodOf "period"))[i]? = some (some middle) ∧
    (stdev closes (d.periodOf "period"))[i]? = some (some spread) ∧
    (IsIndefinite spread d.widthOf ∨
      IsInfinite middle ∧ IsInfinite (spread * d.widthOf) ∧ sides middle (spread * d.widthOf))

/-- Whether a line of an indicator is not a number at a bar where the series that it is calculated from are numbers. -/
def IsTorn (d : Descriptor Float) (closes : List Float) (line i : Nat) : Prop :=
  match d.kind, line with
  | .macd, 0 => ∃ fast slow, (ema closes (d.periodOf "fast"))[i]? = some (some fast) ∧
      (ema closes (d.periodOf "slow"))[i]? = some (some slow) ∧
      IsInfinite fast ∧ IsInfinite slow ∧ lt fast 0.0 = lt slow 0.0
  | .bb, 0 => d.IsBandTorn closes i fun middle reach => lt middle 0.0 ≠ lt reach 0.0
  | .bb, 2 => d.IsBandTorn closes i fun middle reach => lt middle 0.0 = lt reach 0.0
  | _, _ => False

variable {d : Descriptor Float} {closes : List Float} {k i : Nat} {series : List (Option Float)}

theorem isBroken_band (number : isNaN d.widthOf = false) {f : Float → Float → Float} {sides : Float → Float → Prop}
    (law : ∀ x y, isNaN (f x y) = true ↔
      isNaN x = true ∨ isNaN y = true ∨ IsInfinite x ∧ IsInfinite y ∧ sides x y) :
    IsBroken (zipDefined (fun m s => f m (s * d.widthOf)) (sma closes (d.periodOf "period"))
      (stdev closes (d.periodOf "period"))) i ↔ d.IsBandTorn closes i sides := by
  rw [isBroken_zipDefined, IsBandTorn]
  refine exists_congr fun middle => exists_congr fun spread => ?_
  refine and_congr_right fun average => and_congr_right fun deviates => ?_
  have left := isNumeric_rolling _ _ _ middle (List.mem_of_getElem? average)
  have right := isNumeric_rolling _ _ _ spread (List.mem_of_getElem? deviates)
  simp [law, isNaN_mul_iff, left, right, number]

theorem isBroken_iff_isTorn (number : isNaN d.widthOf = false) (found : (d.seriesOf closes)[k]? = some series) :
    IsBroken series i ↔ d.IsTorn closes k i := by
  unfold seriesOf at found
  unfold IsTorn
  have single {line : List (Option Float)} (numeric : IsNumeric line) (found : [line][k]? = some series) :
      ¬IsBroken series i := by
    rw [List.mem_singleton.mp (List.mem_of_getElem? found)]
    exact numeric.not_isBroken
  cases kind : d.kind with
  | sma => exact iff_of_false (single (isNumeric_rolling _ _ _) (by rwa [kind] at found)) id
  | ema => exact iff_of_false (single (isNumeric_ema _ _) (by rwa [kind] at found)) id
  | rsi => exact iff_of_false (single (isNumeric_rsi _ _) (by rwa [kind] at found)) id
  | macd =>
    rw [kind] at found
    rcases k with _ | _ | k
    · obtain rfl := Option.some.inj found
      refine isBroken_zipDefined.trans ?_
      refine exists_congr fun fast => exists_congr fun slow => ?_
      refine and_congr_right fun quick => and_congr_right fun late => ?_
      have left := isNumeric_ema _ _ fast (List.mem_of_getElem? quick)
      have right := isNumeric_ema _ _ slow (List.mem_of_getElem? late)
      simp [isNaN_sub_iff, left, right]
    · obtain rfl := Option.some.inj found
      exact iff_of_false (isNumeric_signalLine _ _).not_isBroken id
    · cases found
  | bb =>
    rw [kind] at found
    rcases k with _ | _ | _ | k
    · obtain rfl := Option.some.inj found
      exact isBroken_band number fun _ _ => isNaN_add_iff
    · obtain rfl := Option.some.inj found
      exact iff_of_false (isNumeric_rolling _ _ _).not_isBroken id
    · obtain rfl := Option.some.inj found
      exact isBroken_band number fun _ _ => isNaN_sub_iff
    · cases found

theorem points_resultOf (d : Descriptor Float) (history : History Float) (colorIndex : Int) :
    (d.resultOf history colorIndex).lines.map (·.points) =
      (d.seriesOf history.closes).map (pointsOf history.times) := by
  unfold resultOf seriesOf
  cases d.kind <;> rfl

theorem isFinite_of_bands (short : closes.length + 1 < 2 ^ 53) (all : ∀ x ∈ closes, IsWithin (2 ^ 480) x)
    {period : Int} {middle spread : Float} (average : (sma closes period)[i]? = some (some middle))
    (deviates : (stdev closes period)[i]? = some (some spread)) :
    isFinite middle = true ∧ isFinite spread = true := by
  have place := (List.getElem?_eq_some_iff.mp average).1
  rw [sma, length_rolling] at place
  rw [sma, getElem?_rolling _ place, Option.some_inj] at average
  rw [stdev, getElem?_rolling _ place, Option.some_inj] at deviates
  by_cases whole : 1 ≤ period ∧ period ≤ i + 1
  · rw [if_pos whole, defined_eq_some_iff] at average deviates
    have size := length_trailing (n := period.toNat) (by omega) place
    have inside : ∀ x ∈ trailing period.toNat closes i, IsWithin (2 ^ 480) x := fun x member =>
      all x (List.mem_of_mem_take (List.mem_of_mem_drop member))
    have filled : trailing period.toNat closes i ≠ [] := List.ne_nil_of_length_pos (by omega)
    have count : ((trailing period.toNat closes i).length : Int) = period := by omega
    have spreads := isFinite_deviation (Nat.le_refl _) (by omega) filled inside
    rw [count, deviates.2] at spreads
    exact ⟨average.2 ▸ (isWithin_mean (by decide) (by omega) filled inside).1, spreads⟩
  · rw [if_neg whole] at average
    cases average

/-- For closes far from the end of the range and a finite width nothing is torn. -/
theorem not_isTorn_of_isWithin (short : closes.length + 1 < 2 ^ 53) (all : ∀ x ∈ closes, IsWithin (2 ^ 480) x)
    (width : isFinite d.widthOf = true) : ¬d.IsTorn closes k i := by
  have bounded {x : Float} (finite : isFinite x = true) : ¬IsInfinite x := fun infinite => by
    rw [infinite.1] at finite
    cases finite
  have band (sides : Float → Float → Prop) : ¬d.IsBandTorn closes i sides := by
    rintro ⟨middle, spread, average, deviates, torn⟩
    have ⟨center, finite⟩ := isFinite_of_bands short all average deviates
    rcases torn with (⟨infinite, -⟩ | ⟨-, infinite⟩) | ⟨infinite, -⟩
    · exact bounded finite infinite
    · exact bounded width infinite
    · exact bounded center infinite
  unfold IsTorn
  split
  · rintro ⟨fast, slow, quick, -, infinite, -⟩
    exact bounded (isWithin_ema (by decide) short all quick).1 infinite
  · exact band _
  · exact band _
  · exact id

end Descriptor

theorem exists_line_of_descriptors? {scripts : List Text} {ds : List (Descriptor Float)}
    (h : descriptors? scripts = .ok ds) : ∀ d ∈ ds, ∃ line, Descriptor.ofLine? line = .ok (some d) := by
  obtain ⟨all, read, rfl⟩ := map_ok h
  intro d member
  obtain ⟨asked, inside, member⟩ := List.mem_flatten.mp member
  obtain ⟨script, -, read⟩ := mem_of_mapM read inside
  obtain ⟨found, lines, read⟩ := bind_ok read
  obtain rfl := pure_ok read
  obtain ⟨_, entry, rfl⟩ := List.mem_filterMap.mp member
  obtain ⟨line, -, read⟩ := mem_of_mapM lines entry
  exact ⟨line, read⟩

theorem Descriptor.isNaN_widthOf_of_counts {d : Descriptor Float} {given : List (Text × Nat)}
    (counts : d.params = given.map fun p => (p.1, ofInt p.2)) (apart : ("stddev" : Text) ∉ given.map (·.1)) :
    isNaN d.widthOf = false := by
  have absent : List.lookup ("stddev" : Text) d.params = none := by
    rw [counts, List.lookup_eq_none_iff]
    intro entry member
    obtain ⟨p, inside, rfl⟩ := List.mem_map.mp member
    exact bne_iff_ne.mpr fun same => apart (List.mem_map.mpr ⟨p, inside, same.symm⟩)
  rw [widthOf, absent]
  rfl

theorem Asked.isNaN_widthOf {asked : Asked} {d : Descriptor Float} (h : asked.descriptor? = .ok d) :
    isNaN d.widthOf = false := by
  cases asked with
  | single kind digits color =>
    obtain ⟨period, -, h⟩ := bind_ok h
    obtain ⟨ps, read, h⟩ := bind_ok h
    obtain rfl := pure_ok h
    exact Descriptor.isNaN_widthOf_of_counts (Descriptor.params?_ok read).1 (by decide : _ ∉ (["period"] : List Text))
  | macd fast slow signal color =>
    obtain ⟨_, -, h⟩ := bind_ok h
    obtain ⟨_, -, h⟩ := bind_ok h
    obtain ⟨_, -, h⟩ := bind_ok h
    obtain ⟨ps, read, h⟩ := bind_ok h
    obtain rfl := pure_ok h
    exact Descriptor.isNaN_widthOf_of_counts (Descriptor.params?_ok read).1
      (by decide : _ ∉ (["fast", "slow", "signal"] : List Text))
  | bands bars width color =>
    obtain ⟨count, -, h⟩ := bind_ok h
    obtain ⟨ps, read, h⟩ := bind_ok h
    obtain rfl := pure_ok h
    obtain ⟨rfl, -⟩ := Descriptor.params?_ok read
    show isNaN (((Decimal.ofText? isDigit width).map Decimal.value).getD 0.0) = false
    cases Decimal.ofText? isDigit width with
    | none => rfl
    | some decimal => exact Double.isNaN_ofScientific _ _ _
  | short word digits =>
    obtain ⟨period, -, h⟩ := bind_ok h
    split at h
    · obtain ⟨ps, read, h⟩ := bind_ok h
      obtain rfl := pure_ok h
      exact Descriptor.isNaN_widthOf_of_counts (Descriptor.params?_ok read).1
        (by decide : _ ∉ (["period"] : List Text))
    · cases h

/-- The width of a band that a script asks for is a number. -/
theorem isNaN_widthOf {scripts : List Text} {ds : List (Descriptor Float)} (h : descriptors? scripts = .ok ds) :
    ∀ d ∈ ds, isNaN d.widthOf = false := by
  intro d member
  obtain ⟨line, read⟩ := exists_line_of_descriptors? h d member
  rw [Asked.ofLine?_eq] at read
  cases found : Asked.ofLine? line with
  | none =>
    rw [found] at read
    cases read
  | some asked =>
    rw [found] at read
    obtain ⟨d', described, same⟩ := map_ok read
    obtain rfl := Option.some.inj same
    exact Asked.isNaN_widthOf described

/-! ### Overlays -/

/-- The lines of an indicator draw the defined entries of its series, which are numbers where the line is not torn. -/
structure Descriptor.DrawsEntries (history : History Float) (d : Descriptor Float) (r : Result Float) : Prop where
  points : r.lines.map (·.points) = (d.seriesOf history.closes).map (pointsOf history.times)
  torn : ∀ (k : Nat) line, r.lines[k]? = some line → ∀ t, (∃ x, ⟨t, x⟩ ∈ line.points ∧ isNaN x = true) ↔
    ∃ i : Nat, history.times[i]? = some t ∧ d.IsTorn history.closes k i

theorem Descriptor.resultOf_drawsEntries {d : Descriptor Float} (number : isNaN d.widthOf = false)
    (history : History Float) (colorIndex : Int) : d.DrawsEntries history (d.resultOf history colorIndex) where
  points := d.points_resultOf history colorIndex
  torn k line found t := by
    have drawn := congrArg (·[k]?) (d.points_resultOf history colorIndex)
    rw [List.getElem?_map, List.getElem?_map, found, Option.map_some] at drawn
    obtain ⟨series, inside, same⟩ := Option.map_eq_some_iff.mp drawn.symm
    rw [← same, isNaN_pointsOf]
    simp only [isBroken_iff_isTorn number inside]

/-- Scripts without an engine that can be read draw what is not a number exactly where a line is torn, and nowhere if
the closes are far from the end of the range of doubles and the widths of bands are finite. -/
theorem overlays?_points {scripts : List Text} {ds : List (Descriptor Float)}
    (generic : ∀ script ∈ scripts, isGeneric script) (read : descriptors? scripts = .ok ds)
    (history : History Float) (c : Int) :
    ∃ b, overlays? history scripts c = .ok b ∧
      List.Forall₂ (fun p r => p.1.DrawsEntries history r) (drawable ds) b.results ∧
      (history.closes.length + 1 < 2 ^ 53 → (∀ x ∈ history.closes, Double.IsWithin (2 ^ 480) x) →
        (∀ d ∈ ds, isFinite d.widthOf = true) →
        ∀ r ∈ b.results, ∀ line ∈ r.lines, ∀ p ∈ line.points, isNaN p.value = false) := by
  have asked : ∀ p ∈ drawable ds, p.1 ∈ ds := fun p member =>
    (List.mem_zipIdx' (List.mem_filter.mp member).1).2 ▸ List.getElem_mem _
  have draws : ∀ p ∈ drawable ds, p.1.DrawsEntries history (p.1.resultOf history (c + p.2)) := fun p member =>
    Descriptor.resultOf_drawsEntries (isNaN_widthOf read p.1 (asked p member)) history _
  refine ⟨_, overlays?_eq_drawnFrom generic read history c, ?_, ?_⟩
  · rw [drawnFrom_eq, List.forall₂_map_right_iff]
    exact List.forall₂_same.mpr draws
  · intro short all widths r member line inside point drawn
    rw [drawnFrom_eq] at member
    obtain ⟨p, here, rfl⟩ := List.mem_map.mp member
    obtain ⟨k, found⟩ := List.mem_iff_getElem?.mp inside
    rw [← Bool.not_eq_true]
    intro broken
    obtain ⟨i, -, torn⟩ := ((draws p here).torn k line found point.time).mp ⟨point.value, drawn, broken⟩
    exact Descriptor.not_isTorn_of_isWithin short all (widths p.1 (asked p here)) torn

/-- Closes of which the squared deviation from their mean is infinite. -/
def steepHistory : History Float where
  candles := [⟨1, 1.0, 1.0, 1.0, 1e200, none⟩, ⟨2, 1.0, 1.0, 1.0, 0.0, none⟩]
  ordered := by decide

/-- Bands of no width. -/
def flatBands : Descriptor Float := { name := "BB 2,0", kind := .bb, params := [("period", 2.0), ("stddev", 0.0)] }

theorem overlays?_points_of_steepHistory : ∃ b : Bundle Float, overlays? steepHistory ["BB 2 0"] 0 = .ok b ∧
    ∃ r ∈ b.results, ∃ line ∈ r.lines, ∃ x, ⟨2, x⟩ ∈ line.points ∧ isNaN x = true := by
  have generic : ∀ script ∈ (["BB 2 0"] : List Text), isGeneric script := by decide +kernel
  have asked :
      (descriptors? ["BB 2 0"] : Except ScriptError (List (Descriptor Float))).toOption = some [flatBands] := by
    decide +kernel
  have drawn : drawable [flatBands] = [(flatBands, 0)] := by decide +kernel
  -- the average of both closes is finite, but the product of their deviation and the width is not a number
  have torn : flatBands.IsTorn steepHistory.closes 0 1 :=
    ⟨5e199, 1.0 / 0.0, by decide +kernel, by decide +kernel, Or.inl (Or.inl ⟨⟨rfl, rfl⟩, by decide +kernel⟩)⟩
  cases read : (descriptors? ["BB 2 0"] : Except ScriptError (List (Descriptor Float))) with
  | error e =>
    rw [read] at asked
    cases asked
  | ok ds =>
    rw [read] at asked
    obtain rfl := Option.some.inj asked
    obtain ⟨b, ran, draws, -⟩ := overlays?_points generic read steepHistory 0
    rw [drawn, List.forall₂_cons_left_iff] at draws
    obtain ⟨r, rest, here, -, same⟩ := draws
    have lines : 0 < r.lines.length := by
      have size := congrArg List.length here.points
      rw [List.length_map, List.length_map] at size
      exact size.trans_gt (by decide)
    obtain ⟨x, point, broken⟩ := (here.torn 0 _ (List.getElem?_eq_getElem lines) 2).mpr ⟨1, rfl, torn⟩
    exact ⟨b, ran, r, same ▸ List.mem_cons_self, _, List.getElem_mem lines, x, point, broken⟩

/-- Closes may be finite and a point no number. -/
theorem exists_undefined_point : ¬∀ (history : History Float) (scripts : List Text) (b : Bundle Float),
    (∀ x ∈ history.closes, isFinite x = true) → (∀ script ∈ scripts, isGeneric script) →
    overlays? history scripts 0 = .ok b →
      ∀ r ∈ b.results, ∀ line ∈ r.lines, ∀ p ∈ line.points, isNaN p.value = false := by
  intro all
  have found : (overlays? steepHistory ["BB 2 0"] 0).toOption.map (fun b => b.results.all fun r =>
      r.lines.all fun line => line.points.all fun p => !isNaN p.value) = some false := by decide +kernel
  cases ran : overlays? steepHistory ["BB 2 0"] 0 with
  | error e =>
    rw [ran] at found
    cases found
  | ok b =>
    have numbers := all steepHistory ["BB 2 0"] b (by decide +kernel) (by decide +kernel) ran
    rw [ran] at found
    have every : (b.results.all fun r => r.lines.all fun line => line.points.all fun p => !isNaN p.value) = true := by
      simpa only [List.all_eq_true, Bool.not_eq_true'] using numbers
    cases every.symm.trans (Option.some.inj found)

end ChartOverlay
