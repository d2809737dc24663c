import ChartOverlay.Feed.Payload
import ChartOverlay.Proofs.Partial

/-!
# Payloads that upset their reading

Most errors of a payload say that it holds no candles, and those who read it go on without. Some do not.
`Escapes` follows such an error back through a chain of steps to the value that causes it: an infinite time,
a whole number without a double, or a volume with parts. `candles?_escapes` says which payloads hold one.
-/

namespace ChartOverlay

section Escaping
variable {ε δ α β : Type} {recoverable : ε → Bool}

/-- A calculation ends with an error that is not recovered from. -/
def Escapes (recoverable : ε → Bool) (x : Except ε α) : Prop := ∃ e, x = .error e ∧ recoverable e = false

@[simp] theorem not_escapes_ok (a : α) : ¬ Escapes recoverable (.ok a : Except ε α) := by
  rintro ⟨e, h, _⟩
  cases h

@[simp] theorem escapes_error {e : ε} :
    Escapes recoverable (.error e : Except ε α) ↔ recoverable e = false := by
  simp [Escapes]

theorem escapes_bind {x : Except ε α} {f : α → Except ε β} :
    Escapes recoverable (x >>= f) ↔
      Escapes recoverable x ∨ ∃ a, x = .ok a ∧ Escapes recoverable (f a) := by
  cases x <;> simp

theorem escapes_map {x : Except ε α} {f : α → β} :
    Escapes recoverable (f <$> x) ↔ Escapes recoverable x := by
  cases x <;> simp [Functor.map, Except.map]

theorem escapes_mapError {x : Except δ α} {f : δ → ε} :
    Escapes recoverable (x.mapError f) ↔ Escapes (recoverable ∘ f) x := by
  cases x <;> simp [Except.mapError]

/-- A value in a row has a property, and a step succeeds on all before it. -/
def FirstUnread (f : α → Except ε β) (upsetting : α → Prop) (xs : List α) : Prop :=
  ∃ before x after, xs = before ++ x :: after ∧ (∀ y ∈ before, ∃ b, f y = .ok b) ∧ upsetting x

variable {f : α → Except ε β} {upsetting : α → Prop} {x : α} {xs : List α}

@[simp] theorem not_firstUnread_nil : ¬ FirstUnread f upsetting [] := by
  rintro ⟨before, x, after, h, _⟩
  simp at h

theorem firstUnread_cons :
    FirstUnread f upsetting (x :: xs) ↔
      upsetting x ∨ (∃ b, f x = .ok b) ∧ FirstUnread f upsetting xs := by
  constructor
  · rintro ⟨before, y, after, split, read, here⟩
    cases before with
    | nil =>
      obtain ⟨rfl, rfl⟩ := List.cons.inj split
      exact .inl here
    | cons z before =>
      obtain ⟨rfl, rfl⟩ := List.cons.inj split
      exact .inr ⟨read x List.mem_cons_self, before, y, after, rfl,
        fun w member => read w (List.mem_cons_of_mem _ member), here⟩
  · rintro (here | ⟨first, before, y, after, rfl, read, here⟩)
    · exact ⟨[], x, xs, rfl, by simp, here⟩
    · exact ⟨x :: before, y, after, rfl, by simpa using ⟨first, read⟩, here⟩

/-- A row with something after it that only comes up if all of the row is read. -/
theorem firstUnread_cons_or {last : Prop} :
    (FirstUnread f upsetting (x :: xs) ∨ (∀ y ∈ x :: xs, ∃ b, f y = .ok b) ∧ last) ↔
      upsetting x ∨ (∃ b, f x = .ok b) ∧
        (FirstUnread f upsetting xs ∨ (∀ y ∈ xs, ∃ b, f y = .ok b) ∧ last) := by
  rw [firstUnread_cons, List.forall_mem_cons]
  tauto

theorem escapes_mapM :
    Escapes recoverable (xs.mapM f) ↔ FirstUnread f (fun x => Escapes recoverable (f x)) xs := by
  induction xs with
  | nil => simp [pure, Except.pure]
  | cons x xs ih =>
    rw [List.mapM_cons, escapes_bind, firstUnread_cons, ← ih]
    simp only [escapes_bind, pure, Except.pure, not_escapes_ok, and_false, exists_false, or_false,
      exists_and_right]

end Escaping

/-! ### Values -/

namespace Json

/-- A whole number that no finite double is nearest to. -/
def IsTooLarge (j : Json) : Prop := ∃ n, j = whole n ∧ Arith.isFinite (Arith.ofInt n : Float) = false

def HasParts : Json → Prop
  | array _ | object _ => True
  | _ => False

theorem toDouble?_escapes {recoverable : NotADouble → Bool} {j : Json} :
    Escapes recoverable j.toDouble? ↔
      (j.IsTooLarge ∧ recoverable (.fault .wholeTooLarge) = false) ∨
      (∃ t, j = string t ∧ Double.ofText? t = none ∧ recoverable (.text t) = false) ∨
      (j = null ∧ recoverable (.type "NoneType") = false) ∨
      (∃ items, j = array items ∧ recoverable (.type "list") = false) ∨
      ∃ fields, j = object fields ∧ recoverable (.type "dict") = false := by
  cases j with
  | whole n =>
    cases finite : Arith.isFinite (Arith.ofInt n : Float) <;>
      simp [toDouble?, Arith.ofInt?, escapes_mapError, IsTooLarge, finite]
  | string t => cases read : Double.ofText? t <;> simp [toDouble?, IsTooLarge, read]
  | _ => simp [toDouble?, IsTooLarge]

end Json

namespace Payload

variable {letters : Bool} {item : Json}

theorem price?_escapes {name letter : String} :
    Escapes PayloadError.isRecoverable (price? letters item name letter) ↔
      ∃ v ∈ lookup? letters item name letter, v.IsTooLarge := by
  cases found : lookup? letters item name letter with
  | none => simp [price?, found, PayloadError.isRecoverable]
  | some v =>
    by_cases absent : v = .null
    · subst absent
      simp [price?, found, PayloadError.isRecoverable, Json.IsTooLarge]
    · simp [price?, found, absent, escapes_mapError, Json.toDouble?_escapes, PayloadError.isRecoverable]

/-- The volume of a record as it stands there. -/
def volumeField? (letters : Bool) (item : Json) : Option Json :=
  (item.field? "volume").or (if letters then item.field? "v" else none)

/-- The volume that a value stands for. -/
def volumeOf? : Option Json → Except PayloadError (Option Float)
  | none | some .null => .ok none
  | some v => (some <$> v.toDouble?).mapError fun
    | .text t => .volumeText t
    | .type name => .volumeType name
    | .fault f => .fault f

theorem volume?_eq : volume? letters item = volumeOf? (volumeField? letters item) := by
  unfold volume? volumeField? volumeOf?
  cases item.field? "volume" <;> rfl

theorem volume?_escapes :
    Escapes PayloadError.isRecoverable (volume? letters item) ↔
      ∃ v ∈ volumeField? letters item, v.IsTooLarge ∨ v.HasParts := by
  rw [volume?_eq]
  cases volumeField? letters item with
  | none => simp [volumeOf?]
  | some v =>
    cases v <;> simp [volumeOf?, escapes_mapError, escapes_map, Json.toDouble?_escapes,
      PayloadError.isRecoverable, Json.IsTooLarge, Json.HasParts]

/-- The time of a record is an infinite double. -/
def HasInfiniteTime (item : Json) : Prop :=
  ∃ x : Float, item.field? "time" = some (.number x) ∧ Arith.isFinite x = false ∧ Arith.isNaN x = false

theorem trunc?_escapes {x : Float} :
    Escapes (fun f : Fault => f = .undefinedToWhole) (Arith.trunc? x) ↔
      Arith.isFinite x = false ∧ Arith.isNaN x = false := by
  have read : Arith.trunc? x = if Arith.isFinite x then .ok (Arith.trunc x)
      else if Arith.isNaN x then .error .undefinedToWhole else .error .infiniteToWhole := rfl
  rw [read]
  cases Arith.isFinite x <;> cases Arith.isNaN x <;> simp

/-- The time that a value names in text. -/
def namedTime? : Json → Except PayloadError Int
  | .string text => match Instant.seconds? text with
    | some t => .ok t
    | none => .error (.unreadableTime text)
  | _ => .error .noTime

theorem not_namedTime?_escapes (named : Json) : ¬ Escapes PayloadError.isRecoverable (namedTime? named) := by
  cases named with
  | string text =>
    rw [namedTime?]
    cases Instant.seconds? text <;> simp [PayloadError.isRecoverable]
  | _ => simp [namedTime?, PayloadError.isRecoverable]

/-- The time of a record in whose field of that name a value stands. -/
def timeOf? (item : Json) : Json → Except PayloadError Int
  | .whole n => .ok n
  | .number x => (Arith.trunc? x).mapError .fault
  | raw => namedTime? <|
    firstFilled raw [(item.field? "date").getD .null, (item.field? "timestamp").getD .null]

theorem time?_eq : time? item = timeOf? item ((item.field? "time").getD .null) := by
  unfold time?
  cases (item.field? "time").getD .null <;> rfl

theorem time?_escapes : Escapes PayloadError.isRecoverable (time? item) ↔ HasInfiniteTime item := by
  rw [time?_eq, HasInfiniteTime]
  cases item.field? "time" with
  | none => simpa [timeOf?] using not_namedTime?_escapes _
  | some raw =>
    cases raw with
    | whole n => simp [timeOf?]
    | number x =>
      simp [timeOf?, escapes_mapError, ← trunc?_escapes, Function.comp_def, PayloadError.isRecoverable]
    | _ => simpa [timeOf?] using not_namedTime?_escapes _

/-! ### Records -/

/-- The names and letters of the prices, in the order in which they are read. -/
def priceFields : List (String × String) := [("open", "o"), ("high", "h"), ("low", "l"), ("close", "c")]

/-- Of the fields of a record, in the order in which they are read, the first that cannot be read is an
infinite time, a number that is too large or a volume with parts. -/
def IsUpsetting (letters : Bool) (item : Json) : Prop :=
  item.isObject ∧ (HasInfiniteTime item ∨ (∃ t, time? item = .ok t) ∧
    (FirstUnread (fun field => price? letters item field.1 field.2)
        (fun field => ∃ v ∈ lookup? letters item field.1 field.2, v.IsTooLarge) priceFields ∨
      (∀ field ∈ priceFields, ∃ x, price? letters item field.1 field.2 = .ok x) ∧
        ∃ v ∈ volumeField? letters item, v.IsTooLarge ∨ v.HasParts))

theorem candle?_escapes :
    Escapes PayloadError.isRecoverable (candle? letters item) ↔ IsUpsetting letters item := by
  unfold candle? IsUpsetting priceFields
  cases item.isObject with
  | false => simp [PayloadError.isRecoverable, throw, throwThe, MonadExceptOf.throw]
  | true =>
    -- the four prices become nested cases, as the chain of steps has them
    simp only [firstUnread_cons_or]
    simp [escapes_bind, time?_escapes, price?_escapes, volume?_escapes, pure, Except.pure]

theorem not_items?_escapes (payload : Json) : ¬ Escapes PayloadError.isRecoverable (items? payload) := by
  unfold items?
  split
  · split <;> simp [PayloadError.isRecoverable]
  · simp
  · simp [PayloadError.isRecoverable]

/-- The first record of a payload that is not read upsets the reading. -/
def Upsets (payload : Json) : Prop :=
  ∃ items letters, items? payload = .ok (items, letters) ∧
    FirstUnread (candle? letters) (IsUpsetting letters) items

theorem candles?_escapes {payload : Json} :
    Escapes PayloadError.isRecoverable (candles? payload) ↔ Upsets payload := by
  unfold candles?
  simp only [escapes_bind, not_items?_escapes, false_or, escapes_mapM, candle?_escapes, pure, Except.pure,
    not_escapes_ok, and_false, exists_false, or_false, Prod.exists, Upsets]

end Payload

end ChartOverlay
