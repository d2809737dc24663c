import ChartOverlay.Proofs.InstantSpelling
import ChartOverlay.Proofs.Timeline

/-!
# Chronology

Records carry instants in different ways: as numbers, or as texts under one of three names. `chronicle_of_carried`
says that a payload of such records gives one candle for each instant, that of the last record that carries it, and
that the candles stand in the order of the instants.
-/

namespace ChartOverlay

namespace Payload
open Instant

/-- The text of an instant under a name. -/
def Spelled (t : Int) (item : Json) (name : String) : Prop :=
  ∃ text, item.field? name = some (.string (Text.ofChars text)) ∧ Spells t text

/-- A blank under the name of the time that stands for no instant; zero does. -/
structure Timeless (item : Json) : Prop where
  blank : ((item.field? "time").getD .null).isBlank = true
  whole : ∀ n, (item.field? "time").getD .null ≠ .whole n
  number : ∀ x, (item.field? "time").getD .null ≠ .number x

theorem timeless_of_null {item : Json} (null : (item.field? "time").getD .null = .null) : Timeless item where
  blank := by rw [null]; rfl
  whole n := by simp [null]
  number x := by simp [null]

/-- The ways in which a record has its time. -/
inductive Carries (t : Int) (item : Json) : Prop
  | whole : item.field? "time" = some (.whole t) → Carries t item
  | number {x : Float} : item.field? "time" = some (.number x) → Arith.isFinite x = true → Double.ratio x = t →
    Carries t item
  | time : Spelled t item "time" → Carries t item
  | date : Timeless item → Spelled t item "date" → Carries t item
  | timestamp : Timeless item → ((item.field? "date").getD .null).isBlank = true → Spelled t item "timestamp" →
    Carries t item

/-- Prices and a volume that can be read. -/
structure Priced (letters : Bool) (item : Json) : Prop where
  opening : ∃ x, price? letters item "open" "o" = .ok x
  high : ∃ x, price? letters item "high" "h" = .ok x
  low : ∃ x, price? letters item "low" "l" = .ok x
  close : ∃ x, price? letters item "close" "c" = .ok x
  volume : ∃ v, volume? letters item = .ok v

/-- One candle for each instant, made of the last record that carries it, in order of time. -/
structure IsChronicle (letters : Bool) (items : List Json) (candles : List (Candle Float)) : Prop where
  ordered : candles.Pairwise (·.time < ·.time)
  times : ∀ t, t ∈ candles.map (·.time) ↔ ∃ item ∈ items, Carries t item
  last : ∀ before item after t, items = before ++ item :: after → Carries t item →
    (∀ other ∈ after, ¬ Carries t other) → ∃ c ∈ candles, c.time = t ∧ candle? letters item = .ok c

variable {t : Int} {item : Json} {items : List Json} {letters : Bool} {payload : Json}

theorem isBlank_of_spells {text : List Char} (spelled : Spells t text) :
    (Json.string (Text.ofChars text)).isBlank = false := by
  cases text with
  | nil =>
    have empty : seconds? (Text.ofChars []) = none := by
      rw [seconds?, micros?, bytes?_ofChars ascii_nil]
      rfl
    cases empty.symm.trans (seconds?_of_spells spelled)
  | cons c rest => rfl

theorem time?_of_text {text : Text} (whole : ∀ n, (item.field? "time").getD .null ≠ .whole n)
    (number : ∀ x, (item.field? "time").getD .null ≠ .number x)
    (found : firstFilled ((item.field? "time").getD .null)
      [(item.field? "date").getD .null, (item.field? "timestamp").getD .null] = .string text)
    (read : seconds? text = some t) : time? item = .ok t := by
  unfold time?
  dsimp only
  split
  · exact absurd ‹_› (whole _)
  · exact absurd ‹_› (number _)
  · simp only [found, read]

theorem time?_of_carries (carried : Carries t item) : time? item = .ok t := by
  cases carried with
  | whole given => simp [time?, given]
  | @number x given finite exact =>
    have read : Arith.trunc? x = .ok (Double.trunc x) := if_pos finite
    simp [time?, given, read, Double.trunc_of_ratio exact, Except.mapError]
  | time spelled =>
    obtain ⟨text, given, spelled⟩ := spelled
    refine time?_of_text ?_ ?_ ?_ (seconds?_of_spells spelled) <;>
      simp [given, firstFilled, isBlank_of_spells spelled]
  | date timeless spelled =>
    obtain ⟨text, given, spelled⟩ := spelled
    refine time?_of_text timeless.whole timeless.number ?_ (seconds?_of_spells spelled)
    simp [firstFilled, timeless.blank, given, isBlank_of_spells spelled]
  | timestamp timeless blank spelled =>
    obtain ⟨text, given, spelled⟩ := spelled
    refine time?_of_text timeless.whole timeless.number ?_ (seconds?_of_spells spelled)
    simp [firstFilled, timeless.blank, blank, given]

/-- Records that carry instants have the times that they carry. -/
theorem time?_iff (carried : ∃ s, Carries s item) : time? item = .ok t ↔ Carries t item := by
  refine ⟨fun read => ?_, time?_of_carries⟩
  obtain ⟨s, known⟩ := carried
  obtain rfl := Except.ok.inj (read.symm.trans (time?_of_carries known))
  exact known

theorem isObject_of_carries (carried : Carries t item) : item.isObject = true := by
  cases item with
  | object => rfl
  | _ =>
    rcases carried with given | ⟨given, _, _⟩ | ⟨_, given, _⟩ | ⟨_, _, given, _⟩ | ⟨_, _, _, given, _⟩ <;>
      cases given

theorem candle?_of_carries (carried : Carries t item) (priced : Priced letters item) :
    ∃ c, candle? letters item = .ok c := by
  obtain ⟨⟨opening, first⟩, ⟨high, second⟩, ⟨low, third⟩, ⟨close, fourth⟩, ⟨volume, fifth⟩⟩ := priced
  refine ⟨{ time := t, opening, high, low, close, volume }, ?_⟩
  simp [candle?, isObject_of_carries carried, time?_of_carries carried, first, second, third, fourth, fifth]

theorem IsTimeline.isChronicle {candles : List (Candle Float)} (timeline : IsTimeline letters items candles)
    (carried : ∀ item ∈ items, ∃ t, Carries t item) : IsChronicle letters items candles where
  ordered := timeline.ordered
  times t := by
    rw [timeline.times]
    exact exists_congr fun item => and_congr_right fun member => time?_iff (carried item member)
  last := by
    intro before item after t split here later
    have member : item ∈ items := split ▸ List.mem_append_right _ List.mem_cons_self
    have known : t ∈ candles.map (·.time) := (timeline.times t).mpr ⟨item, member, time?_of_carries here⟩
    obtain ⟨c, inside, rfl⟩ := List.mem_map.mp known
    obtain ⟨record, last, read⟩ := timeline.last c inside
    -- the candle is made of the last record at its time, and behind this one there is none
    have none : recordsAt c.time after = [] := by
      rw [recordsAt, List.filter_eq_nil_iff]
      intro other behind time
      have other_mem : other ∈ items := split ▸ List.mem_append_right _ (List.mem_cons_of_mem _ behind)
      exact later other behind ((time?_iff (carried other other_mem)).mp (of_decide_eq_true time))
    have records : recordsAt c.time items = recordsAt c.time before ++ [item] := by
      rw [split, recordsAt, List.filter_append, List.filter_cons_of_pos (by simp [time?_of_carries here])]
      exact congrArg (_ ++ item :: ·) none
    rw [records, List.getLast?_append_of_ne_nil _ (List.cons_ne_nil _ _)] at last
    obtain rfl := Option.some.inj last
    exact ⟨c, inside, rfl, read⟩

/-- Times are the instants that records carry, in whatever way, and each instant has one candle. -/
theorem chronicle_of_carried (asked : items? payload = .ok (items, letters))
    (carried : ∀ item ∈ items, ∃ t, Carries t item) (priced : ∀ item ∈ items, Priced letters item) :
    (∀ record t, Carries t record → time? record = .ok t) ∧
      ∃ candles, candles? payload = .ok candles ∧ IsChronicle letters items candles := by
  have each : ∀ item ∈ items, ∃ c, candle? letters item = .ok c := by
    intro item member
    obtain ⟨t, known⟩ := carried item member
    exact candle?_of_carries known (priced item member)
  obtain ⟨cs, read⟩ := mapM_ok_of_forall each
  exact ⟨fun _ _ => time?_of_carries, inOrder cs, candles?_of_read asked read,
    (inOrder_isTimeline read).isChronicle carried⟩

/-- A record with one price. -/
def recordAt (name : Text) (time : Json) (price : Int) : Json := .object
  [(name, time), ("o", .whole price), ("h", .whole price), ("l", .whole price), ("c", .whole price)]

/-- The second day of 2024 as a number and in the zone of Jakarta, and the first one by its week. -/
def mixedRecords : List Json :=
  [recordAt "time" (.whole 1704153600) 1, recordAt "date" (.string "2024-01-02T07:00:00.000+07:00") 2,
    recordAt "timestamp" (.string "2024-W01-1") 3]

theorem chronicle_of_mixed_records : mixedRecords.mapM time? = .ok [1704153600, 1704153600, 1704067200] ∧ ∃ candles,
    candles? (.object [("data", .array mixedRecords)]) = .ok candles ∧ IsChronicle true mixedRecords candles := by
  have second : Calendar.IsDay 738887 2024 1 2 := by decide
  have thursday : Calendar.IsDay 738889 2024 1 4 := by decide
  have newYear : Calendar.IsDay 738886 2024 1 1 := by decide
  have first : Calendar.IsWeekDate 738886 2024 1 1 :=
    ⟨by decide, rfl, 738886, 738889, 1, 4, newYear, thursday, rfl, rfl⟩
  have clock : SpellsClock { hour := 7 } "07:00:00.000".toList :=
    .second (by decide) (by decide) (by decide) (.zeros 2 (.inl rfl))
  have zone : SpellsClock { hour := 7 } "07:00".toList := .minute (by decide) (by decide)
  have morning : Spells 1704153600 "2024-01-02T07:00:00.000+07:00".toList :=
    .moment (by decide) (.date second) (.inl rfl) clock (.ahead zone)
  have monday : Spells 1704067200 "2024-W01-1".toList := .midnight (by decide) (.weekDate first)
  have one : Carries 1704153600 (recordAt "time" (.whole 1704153600) 1) := .whole rfl
  have two : Carries 1704153600 (recordAt "date" (.string "2024-01-02T07:00:00.000+07:00") 2) :=
    .date (timeless_of_null rfl) ⟨_, rfl, morning⟩
  have three : Carries 1704067200 (recordAt "timestamp" (.string "2024-W01-1") 3) :=
    .timestamp (timeless_of_null rfl) rfl ⟨_, rfl, monday⟩
  have carried : ∀ item ∈ mixedRecords, ∃ t, Carries t item := by
    simp only [mixedRecords, List.forall_mem_cons]
    exact ⟨⟨_, one⟩, ⟨_, two⟩, ⟨_, three⟩, List.forall_mem_nil _⟩
  have priced : ∀ item ∈ mixedRecords, Priced true item := by
    simp only [mixedRecords, List.forall_mem_cons]
    refine ⟨?_, ?_, ?_, List.forall_mem_nil _⟩ <;> exact ⟨⟨_, rfl⟩, ⟨_, rfl⟩, ⟨_, rfl⟩, ⟨_, rfl⟩, ⟨_, rfl⟩⟩
  have asked : items? (.object [("data", .array mixedRecords)]) = .ok (mixedRecords, true) := rfl
  obtain ⟨times, chronicle⟩ := chronicle_of_carried asked carried priced
  refine ⟨?_, chronicle⟩
  simp only [mixedRecords, List.mapM_cons, times _ _ one, times _ _ two, times _ _ three]
  rfl

end Payload

end ChartOverlay
