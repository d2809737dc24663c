import ChartOverlay.Proofs.PayloadErrors
import ChartOverlay.Proofs.Timeline

/-!
# Spellings of records

The same records can be written as a list with full names, or within a record under full names or under letters.
`candles?_of_spellings` says how far the three agree: the first and the last always do. Under full names within a
record a price of zero counts as absent, and such a payload is not read at all.
-/

namespace ChartOverlay

/-- A number as data writes it. -/
inductive Amount
  | whole (n : Int)
  | number (x : Float)

namespace Amount

def json : Amount → Json
  | whole n => .whole n
  | number x => .number x

def isZero : Amount → Bool
  | whole n => n = 0
  | number x => x == 0.0

def value? : Amount → Except PayloadError Float
  | whole n => (Arith.ofInt? n).mapError .fault
  | number x => .ok x

/-- A double is nearest to the number. -/
def HasDouble (a : Amount) : Prop := ∃ x, a.value? = .ok x

theorem isBlank_json (a : Amount) : a.json.isBlank = a.isZero := by
  cases a <;> rfl

end Amount

/-- What one record says of a bar. -/
structure Quote where
  time : Int
  opening : Amount
  high : Amount
  low : Amount
  close : Amount
  volume : Option Amount

/-- The names of the fields of a record. -/
structure FieldNames where
  opening : String
  high : String
  low : String
  close : String
  volume : String

def fullNames : FieldNames := ⟨"open", "high", "low", "close", "volume"⟩

def letterNames : FieldNames := ⟨"o", "h", "l", "c", "v"⟩

namespace Quote

/-- The candle of a quote, if its numbers are doubles. -/
def candle? (q : Quote) : Except PayloadError (Candle Float) := do
  let opening ← q.opening.value?
  let high ← q.high.value?
  let low ← q.low.value?
  let close ← q.close.value?
  let volume ← q.volume.mapM Amount.value?
  return { time := q.time, opening, high, low, close, volume }

/-- A record says what a quote does under some names, and nothing under others. -/
structure IsSpelled (names others : FieldNames) (q : Quote) (item : Json) : Prop where
  record : item.isObject = true
  time : item.field? "time" = some (.whole q.time)
  opening : item.field? names.opening = some q.opening.json ∧ item.field? others.opening = none
  high : item.field? names.high = some q.high.json ∧ item.field? others.high = none
  low : item.field? names.low = some q.low.json ∧ item.field? others.low = none
  close : item.field? names.close = some q.close.json ∧ item.field? others.close = none
  volume : item.field? names.volume = q.volume.map Amount.json ∧ item.field? others.volume = none

/-- The first price that is zero, by its name. -/
def zeroField? (q : Quote) : Option String :=
  ([(fullNames.opening, q.opening), (fullNames.high, q.high), (fullNames.low, q.low),
    (fullNames.close, q.close)].find? (·.2.isZero)).map (·.1)

structure HasDoubles (q : Quote) : Prop where
  opening : q.opening.HasDouble
  high : q.high.HasDouble
  low : q.low.HasDouble
  close : q.close.HasDouble
  volume : ∀ a ∈ q.volume, a.HasDouble

end Quote

namespace Payload
variable {item : Json} {a : Amount} {name letter : String} {q : Quote}

/-! ### Fields -/

theorem price?_of_lookup {letters : Bool} (found : lookup? letters item name letter = some a.json) :
    price? letters item name letter = a.value? := by
  unfold price?
  rw [found]
  cases a with
  | whole n =>
    show (((Arith.ofInt? n : Except Fault Float).mapError Json.NotADouble.fault).mapError _) = _
    cases h : (Arith.ofInt? n : Except Fault Float) <;> simp [Except.mapError, Amount.value?, h]
  | number x => rfl

theorem price?_listed (found : item.field? name = some a.json) : price? false item name letter = a.value? :=
  price?_of_lookup found

theorem price?_lettered (found : item.field? letter = some a.json) (absent : item.field? name = none) :
    price? true item name letter = a.value? := by
  apply price?_of_lookup
  simp [lookup?, absent, found, Json.isBlank]

/-- Under its full name a zero is looked up again under a letter. -/
theorem price?_named (found : item.field? name = some a.json) (absent : item.field? letter = none) :
    price? true item name letter = if a.isZero then .error (.missing name) else a.value? := by
  cases zero : a.isZero with
  | true => simp [price?, lookup?, found, absent, Amount.isBlank_json, zero]
  | false =>
    apply price?_of_lookup
    simp [lookup?, found, Amount.isBlank_json, zero]

theorem volumeOf?_json (volume : Option Amount) :
    volumeOf? (volume.map Amount.json) = volume.mapM Amount.value? := by
  cases volume with
  | none => rfl
  | some a =>
    cases a with
    | whole n =>
      cases h : (Arith.ofInt? n : Except Fault Float) <;>
        simp [volumeOf?, Amount.json, Json.toDouble?, Amount.value?, h, Except.mapError, Functor.map, Except.map]
    | number x => rfl

/-! ### Records -/

theorem time?_of_whole {t : Int} (found : item.field? "time" = some (.whole t)) : time? item = .ok t := by
  rw [time?_eq, found]
  rfl

/-- A record is read field by field. -/
theorem candle?_of_fields {letters : Bool} {opening high low close : Except PayloadError Float}
    (record : item.isObject = true) (time : item.field? "time" = some (.whole q.time))
    (first : price? letters item "open" "o" = opening) (second : price? letters item "high" "h" = high)
    (third : price? letters item "low" "l" = low) (fourth : price? letters item "close" "c" = close)
    (volume : volumeField? letters item = q.volume.map Amount.json) :
    Payload.candle? letters item = (do
      let opening ← opening
      let high ← high
      let low ← low
      let close ← close
      let volume ← q.volume.mapM Amount.value?
      return { time := q.time, opening, high, low, close, volume }) := by
  rw [Payload.candle?, record, time?_of_whole time, first, second, third, fourth, volume?_eq, volume,
    volumeOf?_json]
  rfl

theorem candle?_listed (spelled : q.IsSpelled fullNames letterNames item) :
    Payload.candle? false item = q.candle? := by
  refine candle?_of_fields spelled.record spelled.time (price?_listed spelled.opening.1)
    (price?_listed spelled.high.1) (price?_listed spelled.low.1) (price?_listed spelled.close.1) ?_
  rw [volumeField?]
  exact (Option.or_none).trans spelled.volume.1

theorem candle?_lettered (spelled : q.IsSpelled letterNames fullNames item) :
    Payload.candle? true item = q.candle? := by
  refine candle?_of_fields spelled.record spelled.time
    (price?_lettered spelled.opening.1 spelled.opening.2) (price?_lettered spelled.high.1 spelled.high.2)
    (price?_lettered spelled.low.1 spelled.low.2) (price?_lettered spelled.close.1 spelled.close.2) ?_
  have absent : item.field? "volume" = none := spelled.volume.2
  have found : item.field? "v" = q.volume.map Amount.json := spelled.volume.1
  simp [volumeField?, absent, found]

theorem candle?_named (spelled : q.IsSpelled fullNames letterNames item) :
    (q.zeroField? = none → Payload.candle? true item = q.candle?) ∧
      ∀ name, q.HasDoubles → q.zeroField? = some name → Payload.candle? true item = .error (.missing name) := by
  have volume : volumeField? true item = q.volume.map Amount.json := by
    have found : item.field? "volume" = q.volume.map Amount.json := spelled.volume.1
    have absent : item.field? "v" = none := spelled.volume.2
    simp [volumeField?, absent, found]
  rw [candle?_of_fields spelled.record spelled.time (price?_named spelled.opening.1 spelled.opening.2)
    (price?_named spelled.high.1 spelled.high.2) (price?_named spelled.low.1 spelled.low.2)
    (price?_named spelled.close.1 spelled.close.2) volume]
  -- the prices are read in the order in which a zero among them is looked for
  constructor
  · intro none
    simp [Quote.zeroField?] at none
    simp [none, Quote.candle?]
  · rintro name ⟨⟨w, opening⟩, ⟨x, high⟩, ⟨y, low⟩, ⟨z, close⟩, -⟩ found
    rw [opening, high, low, close]
    unfold Quote.zeroField? at found
    cases first : q.opening.isZero with
    | true =>
      obtain rfl : fullNames.opening = name := by simpa [first] using found
      rfl
    | false =>
      cases second : q.high.isZero with
      | true =>
        obtain rfl : fullNames.high = name := by simpa [first, second] using found
        rfl
      | false =>
        cases third : q.low.isZero with
        | true =>
          obtain rfl : fullNames.low = name := by simpa [first, second, third] using found
          rfl
        | false =>
          cases fourth : q.close.isZero with
          | true =>
            obtain rfl : fullNames.close = name := by simpa [first, second, third, fourth] using found
            rfl
          | false => simp [first, second, third, fourth] at found

/-! ### Payloads -/

variable {quotes : List Quote} {items : List Json} {payload : Json}

theorem candles?_listed (filled : quotes ≠ [])
    (spelled : List.Forall₂ (Quote.IsSpelled fullNames letterNames) quotes items) :
    candles? (.array items) = inOrder <$> quotes.mapM Quote.candle? := by
  have same := mapM_congr_of_forall₂ (spelled.imp fun q item here => candle?_listed here)
  cases spelled with
  | nil => exact absurd rfl filled
  | @cons q item quotes items first rest =>
    have asked : items? (.array (item :: items)) = .ok (item :: items, false) := by
      have opened : item.field? "open" = some q.opening.json := first.opening.1
      simp [items?, opened]
    rw [candles?, asked, ok_bind]
    simp only [same]
    rfl

theorem items?_within (found : payload.field? "data" = some (.array items)) :
    items? payload = .ok (items, true) := by
  cases payload with
  | object fields => simp [items?, found]
  | _ => cases found

theorem candles?_within {read : Quote → Except PayloadError (Candle Float)}
    (found : payload.field? "data" = some (.array items))
    (same : List.Forall₂ (fun q item => Payload.candle? true item = read q) quotes items) :
    candles? payload = inOrder <$> quotes.mapM read := by
  rw [candles?, items?_within found, ok_bind]
  simp only [mapM_congr_of_forall₂ same]
  rfl

theorem candle?_ok_of_hasDoubles (doubles : q.HasDoubles) : ∃ c, q.candle? = .ok c := by
  obtain ⟨⟨w, opening⟩, ⟨x, high⟩, ⟨y, low⟩, ⟨z, close⟩, volume⟩ := doubles
  rw [Quote.candle?, opening, high, low, close]
  cases traded : q.volume with
  | none => exact ⟨_, rfl⟩
  | some a =>
    obtain ⟨v, read⟩ := volume a traded
    simp only [Option.mapM_some, read]
    exact ⟨_, rfl⟩

/-- The first record with a price of zero ends the reading. -/
theorem mapM_named_error (spelled : List.Forall₂ (Quote.IsSpelled fullNames letterNames) quotes items)
    (doubles : ∀ q ∈ quotes, q.HasDoubles) (found : quotes.findSome? Quote.zeroField? = some name) :
    items.mapM (Payload.candle? true) = .error (.missing name) := by
  induction spelled with
  | nil => cases found
  | @cons q item quotes items first _ ih =>
    have named := candle?_named first
    have here := doubles q List.mem_cons_self
    rw [List.findSome?_cons] at found
    rw [List.mapM_cons]
    cases zero : q.zeroField? with
    | some field =>
      rw [zero] at found
      obtain rfl := Option.some.inj found
      rw [named.2 field here zero]
      rfl
    | none =>
      rw [zero] at found
      obtain ⟨c, read⟩ := candle?_ok_of_hasDoubles here
      rw [named.1 zero, read, ok_bind, ih (fun q member => doubles q (List.mem_cons_of_mem _ member)) found]
      rfl

end Payload

open Payload in
/-- Records in a list under full names and within a record under letters come to the same. So they do within a
record under full names if no price is zero; otherwise, where all numbers have doubles and the others are read, the
first price of zero counts as missing. -/
theorem candles?_of_spellings {quotes : List Quote} {listed lettered named : List Json} {byLetter byName : Json}
    (filled : quotes ≠ [])
    (list : List.Forall₂ (Quote.IsSpelled fullNames letterNames) quotes listed)
    (letters : List.Forall₂ (Quote.IsSpelled letterNames fullNames) quotes lettered)
    (names : List.Forall₂ (Quote.IsSpelled fullNames letterNames) quotes named)
    (withLetters : byLetter.field? "data" = some (.array lettered))
    (withNames : byName.field? "data" = some (.array named)) :
    candles? byLetter = candles? (.array listed) ∧
    ((∀ q ∈ quotes, q.zeroField? = none) → candles? byName = candles? (.array listed)) ∧
    ((∀ q ∈ quotes, q.HasDoubles) →
      (∃ candles, candles? (.array listed) = .ok candles) ∧
      ∀ name, quotes.findSome? Quote.zeroField? = some name → candles? byName = .error (.missing name)) := by
  have whole := candles?_listed filled list
  refine ⟨?_, ?_, ?_⟩
  · rw [whole]
    exact candles?_within withLetters (letters.imp fun q item spelled => candle?_lettered spelled)
  · intro positive
    rw [whole]
    have spelled := (List.forall₂_and_left _ _).mpr ⟨positive, names⟩
    exact candles?_within withNames (spelled.imp fun q item here => (candle?_named here.2).1 here.1)
  · intro doubles
    constructor
    · obtain ⟨cs, read⟩ := mapM_ok_of_forall fun q member => candle?_ok_of_hasDoubles (doubles q member)
      exact ⟨inOrder cs, by rw [whole, read]; rfl⟩
    · intro name found
      rw [candles?, items?_within withNames, ok_bind]
      simp only [mapM_named_error names doubles found]
      rfl

/-- A bar that opens at zero. -/
def zeroQuote : Quote :=
  { time := 1, opening := .whole 0, high := .number 1.5, low := .number (-2.5), close := .whole 1,
    volume := some (.whole 7) }

def zeroNamed : Json := .object
  [("time", .whole 1), ("open", .whole 0), ("high", .number 1.5), ("low", .number (-2.5)), ("close", .whole 1),
   ("volume", .whole 7)]

def zeroLettered : Json := .object
  [("v", .whole 7), ("o", .whole 0), ("h", .number 1.5), ("l", .number (-2.5)), ("c", .whole 1), ("time", .whole 1)]

theorem candles?_of_spellings_of_zero : ∃ candles,
    Payload.candles? (.array [zeroNamed]) = .ok candles ∧
    Payload.candles? (.object [("data", .array [zeroLettered])]) = .ok candles ∧
    Payload.candles? (.object [("status", .string "ok"), ("data", .array [zeroNamed])]) =
      .error (.missing "open") := by
  have named : zeroQuote.IsSpelled fullNames letterNames zeroNamed :=
    ⟨rfl, rfl, ⟨rfl, rfl⟩, ⟨rfl, rfl⟩, ⟨rfl, rfl⟩, ⟨rfl, rfl⟩, ⟨rfl, rfl⟩⟩
  have lettered : zeroQuote.IsSpelled letterNames fullNames zeroLettered :=
    ⟨rfl, rfl, ⟨rfl, rfl⟩, ⟨rfl, rfl⟩, ⟨rfl, rfl⟩, ⟨rfl, rfl⟩, ⟨rfl, rfl⟩⟩
  have doubles : zeroQuote.HasDoubles := by
    refine ⟨⟨0.0, rfl⟩, ⟨1.5, rfl⟩, ⟨-2.5, rfl⟩, ⟨1.0, rfl⟩, ?_⟩
    rintro a ⟨rfl⟩
    exact ⟨7.0, rfl⟩
  have withLetters : (Json.object [("data", .array [zeroLettered])]).field? "data" =
      some (.array [zeroLettered]) := rfl
  have withNames : (Json.object [("status", .string "ok"), ("data", .array [zeroNamed])]).field? "data" =
      some (.array [zeroNamed]) := rfl
  obtain ⟨same, -, read⟩ := candles?_of_spellings (List.cons_ne_nil zeroQuote []) (.cons named .nil)
    (.cons lettered .nil) (.cons named .nil) withLetters withNames
  obtain ⟨⟨candles, found⟩, missing⟩ := read (List.forall_mem_singleton.mpr doubles)
  exact ⟨candles, found, same.trans found, missing "open" rfl⟩

/-- The bar is read from a list and under letters but not under full names within a record. -/
theorem candles?_zeroNamed :
    Payload.candles? (.array [zeroNamed]) = .ok [⟨1, 0.0, 1.5, -2.5, 1.0, some 7.0⟩] ∧
    Payload.candles? (.object [("data", .array [zeroLettered])]) = .ok [⟨1, 0.0, 1.5, -2.5, 1.0, some 7.0⟩] ∧
    Payload.candles? (.object [("data", .array [zeroNamed])]) = .error (.missing "open") :=
  ⟨rfl, rfl, rfl⟩

end ChartOverlay
