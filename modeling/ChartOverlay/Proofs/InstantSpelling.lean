import ChartOverlay.Proofs.Calendar
import ChartOverlay.Proofs.DoubleNearest
import ChartOverlay.Time.Instant

/-!
# How instants are spelled

A text spells an instant by a date, of months or of weeks, and possibly a time of day and an offset, each with
separators or without. `seconds?_of_spells` says that the text is read as the seconds from the epoch to that instant.
-/

namespace ChartOverlay.Instant

/-! ### Spellings -/

/-- The last digit. -/
def digit (n : Nat) : Char := Char.ofNat (48 + n % 10)

def two (n : Nat) : List Char := [digit (n / 10), digit n]

def four (n : Nat) : List Char := two (n / 100) ++ two n

/-- The texts of a day. A date of weeks without a weekday means the Monday. -/
inductive SpellsDay (n : Nat) : List Char → Prop
  | date {year month day : Nat} : Calendar.IsDay n year month day →
    SpellsDay n (four year ++ '-' :: (two month ++ '-' :: two day))
  | plainDate {year month day : Nat} : Calendar.IsDay n year month day →
    SpellsDay n (four year ++ (two month ++ two day))
  | weekDate {year week day : Nat} : Calendar.IsWeekDate n year week day →
    SpellsDay n (four year ++ '-' :: 'W' :: (two week ++ ['-', digit day]))
  | plainWeekDate {year week day : Nat} : Calendar.IsWeekDate n year week day →
    SpellsDay n (four year ++ 'W' :: (two week ++ [digit day]))
  | week {year week : Nat} : Calendar.IsWeekDate n year week 1 →
    SpellsDay n (four year ++ '-' :: 'W' :: two week)
  | plainWeek {year week : Nat} : Calendar.IsWeekDate n year week 1 →
    SpellsDay n (four year ++ 'W' :: two week)

/-- Nothing, or a mark and zeros. -/
inductive ZeroFraction : List Char → Prop
  | none : ZeroFraction []
  | zeros {mark : Char} (k : Nat) : mark = '.' ∨ mark = ',' → ZeroFraction (mark :: List.replicate (k + 1) '0')

/-- The texts of a clock, less than a day on. -/
inductive SpellsClock : Clock → List Char → Prop
  | hour {hour : Nat} : hour < 24 → SpellsClock { hour } (two hour)
  | minute {hour minute : Nat} : hour < 24 → minute < 60 →
    SpellsClock { hour, minute } (two hour ++ ':' :: two minute)
  | plainMinute {hour minute : Nat} : hour < 24 → minute < 60 →
    SpellsClock { hour, minute } (two hour ++ two minute)
  | second {hour minute second : Nat} {fraction : List Char} : hour < 24 → minute < 60 → second < 60 →
    ZeroFraction fraction →
    SpellsClock { hour, minute, second } (two hour ++ ':' :: (two minute ++ ':' :: (two second ++ fraction)))
  | plainSecond {hour minute second : Nat} {fraction : List Char} : hour < 24 → minute < 60 → second < 60 →
    ZeroFraction fraction →
    SpellsClock { hour, minute, second } (two hour ++ (two minute ++ (two second ++ fraction)))

/-- The texts of an offset, in seconds. -/
inductive SpellsOffset : Int → List Char → Prop
  | none : SpellsOffset 0 []
  | universal : SpellsOffset 0 ['Z']
  | ahead {clock : Clock} {text : List Char} : SpellsClock clock text → SpellsOffset clock.seconds ('+' :: text)
  | behind {clock : Clock} {text : List Char} : SpellsClock clock text → SpellsOffset (-clock.seconds) ('-' :: text)

/-- The texts of an instant, in seconds from the epoch. -/
inductive Spells : Int → List Char → Prop
  | midnight {n : Nat} {day : List Char} : n ≤ Calendar.lastDay → SpellsDay n day →
    Spells (((n : Int) - Calendar.epochDay) * 86400) day
  | moment {n : Nat} {day time zone : List Char} {mark : Char} {clock : Clock} {offset : Int} :
    n ≤ Calendar.lastDay → SpellsDay n day → mark = 'T' ∨ mark = ' ' → SpellsClock clock time →
    SpellsOffset offset zone →
    Spells (((n : Int) - Calendar.epochDay) * 86400 + clock.seconds - offset) (day ++ mark :: (time ++ zone))

/-! ### Bytes -/

def codes (cs : List Char) : Bytes := cs.map byte

theorem length_two (n : Nat) : (two n).length = 2 := rfl

theorem length_four (n : Nat) : (four n).length = 4 := rfl

theorem codes_append (s t : List Char) : codes (s ++ t) = codes s ++ codes t := List.map_append

@[simp] theorem codes_nil : codes [] = [] := rfl

theorem length_codes (s : List Char) : (codes s).length = s.length := List.length_map _

theorem codes_cons (c : Char) (t : List Char) : codes (c :: t) = byte c :: codes t := rfl

theorem byte_digit (n : Nat) : byte (digit n) = 48 + n % 10 := by
  have each : ∀ k < 10, byte (Char.ofNat (48 + k)) = 48 + k := by decide
  exact each _ (Nat.mod_lt n (by decide))

theorem isDigitByte_digit (n : Nat) : isDigitByte (byte (digit n)) = true := by
  rw [byte_digit]
  simp only [isDigitByte, Bool.and_eq_true, decide_eq_true_eq]
  omega

theorem byte_digit_sub (n : Nat) : byte (digit n) - 48 = n % 10 := by
  rw [byte_digit]
  omega

theorem codes_two (n : Nat) : codes (two n) = [byte (digit (n / 10)), byte (digit n)] := rfl

theorem digits?_one {n : Nat} (fits : n < 10) (rest : Bytes) :
    digits? 1 (byte (digit n) :: rest) = some (n, rest) := by
  simp [digits?, isDigitByte_digit, byte_digit_sub]
  omega

theorem digits?_two {n : Nat} (fits : n < 100) (rest : Bytes) :
    digits? 2 (codes (two n) ++ rest) = some (n, rest) := by
  simp [digits?, codes_two, isDigitByte_digit, byte_digit_sub]
  omega

theorem digits?_four {n : Nat} (fits : n < 10000) (rest : Bytes) :
    digits? 4 (codes (four n) ++ rest) = some (n, rest) := by
  simp [digits?, four, codes_append, codes_two, isDigitByte_digit, byte_digit_sub]
  omega

theorem ne_of_isDigitByte {a b : Nat} (first : isDigitByte a = true) (second : isDigitByte b = false) : a ≠ b := by
  rintro rfl
  rw [first] at second
  cases second

@[simp] theorem peek_cons (b : Nat) (rest : Bytes) : peek (b :: rest) = b := rfl

theorem peek_two_ne {b : Nat} (other : isDigitByte b = false) (n : Nat) (rest : Bytes) :
    peek (codes (two n) ++ rest) ≠ b := ne_of_isDigitByte (isDigitByte_digit _) other

@[simp] theorem byte_week_ne : byte 'W' ≠ byte '-' := by decide

@[simp] theorem isDigitByte_dash : isDigitByte (byte '-') = false := rfl

@[simp] theorem isDigitByte_week : isDigitByte (byte 'W') = false := rfl

/-! ### Dates -/

section Dates
variable {a b c d e f g h : Nat} {rest : Bytes}

/-- What follows a date. -/
def Apart (rest : Bytes) : Prop := ∀ b ∈ rest.head?, isDigitByte b = false ∧ b ≠ byte '-'

theorem dateLength?_date (digit : isDigitByte e = true) :
    dateLength? (a :: b :: c :: d :: byte '-' :: e :: f :: byte '-' :: g :: h :: rest) = some 10 := by
  have : e ≠ byte 'W' := ne_of_isDigitByte digit rfl
  simp [dateLength?, this]

theorem dateLength?_plainDate (digit : isDigitByte e = true) :
    dateLength? (a :: b :: c :: d :: e :: f :: g :: h :: rest) = some 8 := by
  have letter : e ≠ byte 'W' := ne_of_isDigitByte digit rfl
  have mark : e ≠ byte '-' := ne_of_isDigitByte digit rfl
  simp [dateLength?, letter, mark]

theorem dateLength?_weekDate (apart : Apart rest) :
    dateLength? (a :: b :: c :: d :: byte '-' :: byte 'W' :: e :: f :: byte '-' :: g :: rest) = some 10 := by
  cases rest with
  | nil => rfl
  | cons h rest => simp [dateLength?, (apart h rfl).1]

theorem dateLength?_plainWeekDate (digit : isDigitByte g = true) (apart : Apart rest) :
    dateLength? (a :: b :: c :: d :: byte 'W' :: e :: f :: g :: rest) = some 8 := by
  have letter : byte 'W' ≠ byte '-' := by decide
  cases rest with
  | nil => simp [dateLength?, digit, letter]
  | cons h rest => simp [dateLength?, digit, letter, (apart h rfl).1]

theorem dateLength?_week (apart : Apart rest) :
    dateLength? (a :: b :: c :: d :: byte '-' :: byte 'W' :: e :: f :: rest) = some 8 := by
  cases rest with
  | nil => rfl
  | cons h rest => simp [dateLength?, (apart h rfl).2]

theorem dateLength?_plainWeek (apart : Apart rest) :
    dateLength? (a :: b :: c :: d :: byte 'W' :: e :: f :: rest) = some 7 := by
  have letter : byte 'W' ≠ byte '-' := by decide
  cases rest with
  | nil => rfl
  | cons h rest => simp [dateLength?, letter, (apart h rfl).1]

theorem dateLength?_of_spells {n : Nat} {day : List Char} (spelled : SpellsDay n day) (apart : Apart rest) :
    dateLength? (codes day ++ rest) = some day.length := by
  cases spelled with
  | date => exact dateLength?_date (isDigitByte_digit _)
  | plainDate => exact dateLength?_plainDate (isDigitByte_digit _)
  | weekDate => exact dateLength?_weekDate apart
  | plainWeekDate => exact dateLength?_plainWeekDate (isDigitByte_digit _) apart
  | week => exact dateLength?_week apart
  | plainWeek => exact dateLength?_plainWeek apart

theorem date?_of_spells {n : Nat} {day : List Char} (spelled : SpellsDay n day) (le : n ≤ Calendar.lastDay)
    (rest : Bytes) : date? day.length (codes day ++ rest) = some n := by
  -- how much of a text its year and its week take up tells whether a day of the week follows
  have front (k : Nat) : 4 + (2 + k + 1 + 1) - k = 8 := by omega
  have plainFront (k : Nat) : 4 + (2 + k + 1) - k = 7 := by omega
  cases spelled with
  | @date year month day known =>
    have bounds := known.spec
    have := known.year_le le
    have := Calendar.daysInMonth_le year month
    have letter := peek_two_ne isDigitByte_week month
    simp [date?, separator?, codes_append, codes_cons, digits?_four (show year < 10000 by omega),
      digits?_two (show month < 100 by omega), digits?_two (show day < 100 by omega), letter,
      Calendar.day?_of_isDay known le]
  | @plainDate year month day known =>
    have bounds := known.spec
    have := known.year_le le
    have := Calendar.daysInMonth_le year month
    have letter := peek_two_ne isDigitByte_week month
    have mark := peek_two_ne isDigitByte_dash month
    simp [date?, separator?, codes_append, digits?_four (show year < 10000 by omega),
      digits?_two (show month < 100 by omega), digits?_two (show day < 100 by omega), letter, mark,
      Calendar.day?_of_isDay known le]
  | @weekDate year week day known =>
    have bounds := known.bounds le
    simp [date?, separator?, codes_append, codes_cons, length_codes, length_four, length_two, front,
      digits?_four (show year < 10000 by omega), digits?_two (show week < 100 by omega),
      digits?_one (show day < 10 by omega), Calendar.weekDay?_of_isWeekDate known le]
  | @plainWeekDate year week day known =>
    have bounds := known.bounds le
    simp [date?, separator?, codes_append, codes_cons, length_codes, length_four, length_two, plainFront,
      digits?_four (show year < 10000 by omega), digits?_two (show week < 100 by omega),
      digits?_one (show day < 10 by omega), Calendar.weekDay?_of_isWeekDate known le]
  | @week year week known =>
    have bounds := known.bounds le
    simp [date?, separator?, codes_append, codes_cons, length_codes, length_four, length_two, front,
      digits?_four (show year < 10000 by omega), digits?_two (show week < 100 by omega),
      Calendar.weekDay?_of_isWeekDate known le]
  | @plainWeek year week known =>
    have bounds := known.bounds le
    simp [date?, separator?, codes_append, codes_cons, length_codes, length_four, length_two, plainFront,
      digits?_four (show year < 10000 by omega), digits?_two (show week < 100 by omega),
      Calendar.weekDay?_of_isWeekDate known le]

end Dates

/-! ### Clocks -/

/-- What follows a clock. -/
def Marked (rest : Bytes) : Prop := ∀ b ∈ rest.head?, isOffsetMark b = true

theorem SpellsClock.isTimeOfDay {clock : Clock} {text : List Char} (spelled : SpellsClock clock text) :
    clock.hour < 24 ∧ clock.minute < 60 ∧ clock.second < 60 ∧ clock.micro = 0 := by
  cases spelled <;> simp_all

section Clocks
variable {n stop left : Nat} {separated : Bool} {values : List Nat} {rest : Bytes}

theorem fields?_last (fits : n < 100) (last : rest.length ≤ stop + 1) :
    fields? stop (left + 1) separated values (codes (two n) ++ rest) =
      some { values := values ++ [n], more := peek rest ≠ 0 } := by
  simp [fields?, digits?_two fits, last]

theorem fields?_separated (fits : n < 100) (more : stop < rest.length) (kept : values = [] ∨ separated = true) :
    fields? stop (left + 1) separated values (codes (two n) ++ byte ':' :: rest) =
      fields? stop left true (values ++ [n]) rest := by
  rcases kept with rfl | rfl <;> simp [fields?, digits?_two fits, Nat.not_le.mpr more]

theorem fields?_plain {m : Nat} (fits : n < 100) (more : stop ≤ rest.length)
    (kept : values = [] ∨ separated = false) :
    fields? stop (left + 1) separated values (codes (two n) ++ (codes (two m) ++ rest)) =
      fields? stop left false (values ++ [n]) (codes (two m) ++ rest) := by
  have colon := peek_two_ne (show isDigitByte (byte ':') = false by rfl) m rest
  have point := peek_two_ne (show isDigitByte (byte '.') = false by rfl) m rest
  have comma := peek_two_ne (show isDigitByte (byte ',') = false by rfl) m rest
  rcases kept with rfl | rfl <;>
    simp [fields?, digits?_two fits, colon, point, comma, length_codes, length_two] <;> omega

theorem fields?_fraction {mark : Char} (fits : n < 100) (more : stop < rest.length)
    (point : mark = '.' ∨ mark = ',') :
    fields? stop (left + 1) separated values (codes (two n) ++ byte mark :: rest) =
      some { values := values ++ [n], fraction := some rest } := by
  rcases point with rfl | rfl <;> simp [fields?, digits?_two fits, Nat.not_le.mpr more, byte]

theorem digits?_zeros {j k : Nat} (le : j ≤ k) (rest : Bytes) :
    digits? j (List.replicate k 48 ++ rest) = some (0, List.replicate (k - j) 48 ++ rest) := by
  have zeros : ∀ n, (List.replicate n 48).foldl (fun v d => 10 * v + (d - 48)) 0 = 0 := by
    intro n
    induction n with
    | zero => rfl
    | succ n ih => exact ih
  have short : j - k = 0 := Nat.sub_eq_zero_of_le le
  simp [digits?, List.take_append, List.drop_append, List.take_replicate, Nat.min_eq_left le, short, zeros,
    isDigitByte]

/-- The clock of the fields that were read. -/
def clockOf (values : List Nat) : Clock :=
  { hour := values.getD 0 0, minute := values.getD 1 0, second := values.getD 2 0 }

theorem clock?_of_fields {bs : Bytes} {more : Bool} (read : fields? stop 3 true [] bs = some { values, more }) :
    clock? stop bs = some (clockOf values, more) := by
  simp [clock?, read, clockOf]

theorem clock?_of_zeros {k : Nat} {bs : Bytes} (marked : Marked rest)
    (read : fields? rest.length 3 true [] bs =
      some { values, fraction := some (List.replicate (k + 1) 48 ++ rest) }) :
    clock? rest.length bs = some (clockOf values, decide (peek rest ≠ 0)) := by
  have stays : rest.dropWhile isDigitByte = rest := by
    cases rest with
    | nil => rfl
    | cons b rest =>
      have mark := marked b rfl
      simp only [isOffsetMark, Bool.or_eq_true, decide_eq_true_eq] at mark
      rcases mark with (rfl | rfl) | rfl <;> rfl
  have cut : ∀ n, (List.replicate n 48 ++ rest).dropWhile isDigitByte = rest := by
    intro n
    induction n with
    | zero => exact stays
    | succ n ih => exact ih
  simp [clock?, read, digits?_zeros (Nat.min_le_right _ _), cut, clockOf]

/-- After the minutes: the seconds, and a fraction of zeros if there is one. -/
theorem clock?_of_second {values : List Nat} {bs : Bytes} {fraction : List Char} (zero : ZeroFraction fraction)
    (marked : Marked rest) (fits : n < 60)
    (read : fields? rest.length 3 true [] bs =
      fields? rest.length 1 separated values (codes (two n ++ fraction) ++ rest)) :
    clock? rest.length bs = some (clockOf (values ++ [n]), decide (peek rest ≠ 0)) := by
  cases zero with
  | none =>
    rw [List.append_nil] at read
    exact clock?_of_fields (read.trans (fields?_last (by omega) (by omega)))
  | @zeros mark k point =>
    rw [codes_append, codes_cons, List.append_assoc, List.cons_append] at read
    have zeros : codes (List.replicate (k + 1) '0') = List.replicate (k + 1) 48 := List.map_replicate
    rw [zeros] at read
    exact clock?_of_zeros marked
      (read.trans (fields?_fraction (by omega) (by simp) point))

theorem clock?_of_spells {clock : Clock} {text : List Char} (spelled : SpellsClock clock text)
    (marked : Marked rest) : clock? rest.length (codes text ++ rest) = some (clock, decide (peek rest ≠ 0)) := by
  cases spelled with
  | hour fits => exact clock?_of_fields (fields?_last (by omega) (by omega))
  | @minute hour minute fits fits' =>
    have read : fields? rest.length 3 true [] (codes (two hour) ++ byte ':' :: (codes (two minute) ++ rest)) =
        some { values := [hour, minute], more := peek rest ≠ 0 } :=
      (fields?_separated (by omega) (by simp [length_codes, length_two]) (.inl rfl)).trans
        (fields?_last (by omega) (by omega))
    rw [codes_append, codes_cons, List.append_assoc, List.cons_append]
    exact clock?_of_fields read
  | @plainMinute hour minute fits fits' =>
    have read : fields? rest.length 3 true [] (codes (two hour) ++ (codes (two minute) ++ rest)) =
        some { values := [hour, minute], more := peek rest ≠ 0 } :=
      (fields?_plain (by omega) le_rfl (.inl rfl)).trans (fields?_last (by omega) (by omega))
    rw [codes_append, List.append_assoc]
    exact clock?_of_fields read
  | @second hour minute second fraction fits fits' fits'' zero =>
    have read : fields? rest.length 3 true []
          (codes (two hour) ++ byte ':' ::
            (codes (two minute) ++ byte ':' :: (codes (two second ++ fraction) ++ rest))) =
        fields? rest.length 1 true [hour, minute] (codes (two second ++ fraction) ++ rest) :=
      (fields?_separated (by omega) (by simp; omega) (.inl rfl)).trans
        (fields?_separated (by omega) (by simp [length_codes, length_two]) (.inr rfl))
    rw [codes_append, codes_cons, codes_append, codes_cons]
    simp only [List.append_assoc, List.cons_append]
    exact clock?_of_second zero marked fits'' read
  | @plainSecond hour minute second fraction fits fits' fits'' zero =>
    have read : fields? rest.length 3 true []
          (codes (two hour) ++ (codes (two minute) ++ (codes (two second) ++ (codes fraction ++ rest)))) =
        fields? rest.length 1 false [hour, minute] (codes (two second ++ fraction) ++ rest) := by
      rw [codes_append, List.append_assoc]
      exact (fields?_plain (by omega) (by simp; omega) (.inl rfl)).trans
        (fields?_plain (by omega) (by simp) (.inr rfl))
    simp only [codes_append, List.append_assoc]
    exact clock?_of_second zero marked fits'' read

end Clocks

/-! ### Offsets -/

theorem seconds_lt {clock : Clock} {text : List Char} (spelled : SpellsClock clock text) : clock.seconds < 86400 := by
  have := spelled.isTimeOfDay
  simp only [Clock.seconds]
  omega

theorem offset?_of_spells {clock : Clock} {text : List Char} (spelled : SpellsClock clock text) (negative : Bool) :
    offset? negative (codes text) =
      some (if negative then -(clock.seconds * 1000000 : Int) else clock.seconds * 1000000) := by
  have read : clock? 0 (codes text) = some (clock, false) := by
    simpa [peek] using clock?_of_spells spelled (show Marked [] by simp [Marked])
  have less := seconds_lt spelled
  obtain ⟨_, _, _, whole⟩ := spelled.isTimeOfDay
  rw [offset?, read]
  by_cases zero : clock.seconds = 0
  · simp [zero]
  · have within : (clock.seconds * 1000000 : Int) < dayMicros := by
      simp only [dayMicros]
      omega
    simp [zero, whole, within]

theorem isOffsetMark_two (n : Nat) : ∀ b ∈ codes (two n), isOffsetMark b = false := by
  have none {a : Nat} (digit : isDigitByte a = true) : isOffsetMark a = false := by
    rw [Bool.eq_false_iff]
    intro mark
    simp only [isOffsetMark, Bool.or_eq_true, decide_eq_true_eq] at mark
    rcases mark with (rfl | rfl) | rfl <;> exact absurd digit (by decide)
  simp [codes_two, none (isDigitByte_digit _)]

theorem isOffsetMark_of_spells {clock : Clock} {text : List Char} (spelled : SpellsClock clock text) :
    ∀ b ∈ codes text, isOffsetMark b = false := by
  have colon : isOffsetMark (byte ':') = false := rfl
  have fractions {fraction : List Char} (zero : ZeroFraction fraction) :
      ∀ b ∈ codes fraction, isOffsetMark b = false := by
    cases zero with
    | none => simp
    | zeros k point =>
      have zeros : ∀ b ∈ codes (List.replicate (k + 1) '0'), isOffsetMark b = false := by
        intro b member
        rw [codes, List.map_replicate] at member
        obtain rfl := List.eq_of_mem_replicate member
        rfl
      rw [codes_cons, List.forall_mem_cons]
      refine ⟨?_, zeros⟩
      rcases point with rfl | rfl <;> rfl
  cases spelled with
  | hour fits => exact isOffsetMark_two _
  | minute fits fits' =>
    simp only [codes_append, codes_cons, List.forall_mem_append, List.forall_mem_cons]
    exact ⟨isOffsetMark_two _, colon, isOffsetMark_two _⟩
  | plainMinute fits fits' =>
    simp only [codes_append, List.forall_mem_append]
    exact ⟨isOffsetMark_two _, isOffsetMark_two _⟩
  | second fits fits' fits'' zero =>
    simp only [codes_append, codes_cons, List.forall_mem_append, List.forall_mem_cons]
    exact ⟨isOffsetMark_two _, colon, isOffsetMark_two _, colon, isOffsetMark_two _,
      fractions zero⟩
  | plainSecond fits fits' fits'' zero =>
    simp only [codes_append, List.forall_mem_append]
    exact ⟨isOffsetMark_two _, isOffsetMark_two _, isOffsetMark_two _, fractions zero⟩

theorem time?_of_spells {clock : Clock} {offset : Int} {time zone : List Char} (spelled : SpellsClock clock time)
    (spelled' : SpellsOffset offset zone) : time? (codes (time ++ zone)) = some (clock, offset * 1000000) := by
  have marked : Marked (codes zone) := by
    cases spelled' <;> simp [Marked, codes_cons, isOffsetMark]
  have cut : (codes (time ++ zone)).dropWhile (!isOffsetMark ·) = codes zone := by
    rw [codes_append, List.dropWhile_append_of_pos (by simpa using isOffsetMark_of_spells spelled)]
    cases spelled' <;> rfl
  have read := clock?_of_spells spelled marked
  rw [← codes_append] at read
  have inside : clock.isTimeOfDay = true := by
    have := spelled.isTimeOfDay
    simp [Clock.isTimeOfDay, this]
  have apart : byte '+' ≠ byte 'Z' ∧ byte '+' ≠ byte '-' ∧ byte '-' ≠ byte 'Z' := by decide
  rw [time?, cut, read]
  cases spelled' with
  | none => simp [inside, peek]
  | universal => simp [inside, peek, codes_cons]
  | ahead written => simp [inside, apart, codes_cons, offset?_of_spells written]
  | behind written => simp [inside, apart, codes_cons, offset?_of_spells written]

/-! ### ASCII -/

theorem toList_loop (bs : ByteArray) (i : Nat) (before : List UInt8) :
    ByteArray.toList.loop bs i before = before.reverse ++ bs.data.toList.drop i := by
  fun_induction ByteArray.toList.loop bs i before with
  | case1 i before inside ih =>
    have inside : i < bs.data.toList.length := inside
    have here : bs.get! i = bs.data.toList[i] := getElem!_pos bs.data i inside
    rw [ih, List.drop_eq_getElem_cons inside, here, List.reverse_cons, List.append_assoc, List.singleton_append]
  | case2 i before outside =>
    rw [List.drop_eq_nil_of_le (Nat.not_lt.mp outside), List.append_nil]

theorem toList_toByteArray (bytes : List UInt8) : bytes.toByteArray.toList = bytes := by
  rw [ByteArray.toList, toList_loop, List.toList_data_toByteArray]
  rfl

def Ascii (cs : List Char) : Prop := ∀ c ∈ cs, c.toNat < 128

theorem utf8_of_ascii {cs : List Char} (ascii : Ascii cs) :
    (String.ofList cs).toUTF8.toList.map UInt8.toNat = codes cs := by
  rw [String.toUTF8, String.toByteArray_ofList, List.utf8Encode, toList_toByteArray]
  induction cs with
  | nil => rfl
  | cons c cs ih =>
    obtain ⟨first, rest⟩ := List.forall_mem_cons.mp ascii
    have low : c.val ≤ 127 := Nat.le_of_lt_succ first
    have same : c.val.toUInt8.toNat = byte c := by
      rw [UInt32.toNat_toUInt8]
      exact Nat.mod_eq_of_lt (Nat.lt_trans first (by decide))
    rw [List.flatMap_cons, String.utf8EncodeChar_eq_singleton (Char.utf8Size_eq_one_iff.mpr low), List.map_append,
      ih rest, codes_cons, ← same]
    rfl

/-- Texts of ASCII are read by their characters. -/
theorem bytes?_ofChars {cs : List Char} (ascii : Ascii cs) : bytes? (Text.ofChars cs) = some (codes cs) := by
  have whole : ∀ c ∈ Text.ofChars cs, c.isHalf = false := by
    intro c member
    obtain ⟨c, _, rfl⟩ := List.mem_map.mp member
    rfl
  have unhalved : dateEnds.find? (fun i => ((Text.ofChars cs)[i]?).any (·.isHalf)) = none := by
    rw [List.find?_eq_none]
    intro i _ found
    obtain ⟨c, here, half⟩ := (Option.any_eq_true _ _).mp found
    rw [whole c (List.mem_of_getElem? here)] at half
    cases half
  have noHalf : (Text.ofChars cs).hasHalf = false := by
    rw [Text.hasHalf, List.any_eq_false]
    intro c member
    rw [whole c member]
    decide
  have shown : (Text.ofChars cs).shown = String.ofList cs := by
    simp [Text.shown, Text.ofChars, CodePoint.shown, List.flatMap_map]
  rw [bytes?, unhalved]
  simp only [noHalf, shown, utf8_of_ascii ascii]
  rfl

theorem ascii_nil : Ascii [] := List.forall_mem_nil _

theorem ascii_append {s t : List Char} : Ascii (s ++ t) ↔ Ascii s ∧ Ascii t := List.forall_mem_append

theorem ascii_cons {c : Char} {t : List Char} : Ascii (c :: t) ↔ c.toNat < 128 ∧ Ascii t := List.forall_mem_cons

theorem digit_lt (n : Nat) : (digit n).toNat < 128 := by
  show byte (digit n) < 128
  rw [byte_digit]
  omega

theorem ascii_two (n : Nat) : Ascii (two n) := by simp [Ascii, two, digit_lt]

theorem SpellsDay.ascii {n : Nat} {day : List Char} (spelled : SpellsDay n day) : Ascii day := by
  cases spelled <;> simp [four, ascii_append, ascii_cons, ascii_nil, ascii_two, digit_lt]

theorem ZeroFraction.ascii {fraction : List Char} (zero : ZeroFraction fraction) : Ascii fraction := by
  cases zero with
  | none => exact ascii_nil
  | zeros k point =>
    refine ascii_cons.mpr ⟨?_, fun c member => ?_⟩
    · rcases point with rfl | rfl <;> decide
    · obtain rfl := List.eq_of_mem_replicate member
      decide

theorem SpellsClock.ascii {clock : Clock} {text : List Char} (spelled : SpellsClock clock text) : Ascii text := by
  cases spelled <;> simp [ascii_append, ascii_cons, ascii_two, ZeroFraction.ascii, *]

theorem SpellsOffset.ascii {offset : Int} {zone : List Char} (spelled : SpellsOffset offset zone) : Ascii zone := by
  cases spelled with
  | none => exact ascii_nil
  | universal => simp [Ascii]
  | ahead written => exact ascii_cons.mpr ⟨by decide, written.ascii⟩
  | behind written => exact ascii_cons.mpr ⟨by decide, written.ascii⟩

/-! ### Instants -/

theorem micros?_of_spells {t : Int} {text : List Char} (spelled : Spells t text) :
    micros? (Text.ofChars text) = some (t * 1000000) := by
  cases spelled with
  | midnight le day =>
    have length := dateLength?_of_spells day (show Apart [] by simp [Apart])
    have known := date?_of_spells day le []
    rw [List.append_nil] at length known
    simp [micros?, bytes?_ofChars day.ascii, length, known, length_codes, Clock.seconds]
  | @moment n day time zone mark clock offset le date separator written shift =>
    have low : mark.toNat < 128 := by rcases separator with rfl | rfl <;> decide
    have one : charLength (byte mark) = 1 := if_pos low
    have ascii : Ascii (day ++ mark :: (time ++ zone)) :=
      ascii_append.mpr ⟨date.ascii, ascii_cons.mpr ⟨low, ascii_append.mpr ⟨written.ascii, shift.ascii⟩⟩⟩
    have apart : Apart (byte mark :: codes (time ++ zone)) := by
      rcases separator with rfl | rfl <;> simp [Apart] <;> decide
    have length := dateLength?_of_spells date apart
    have known := date?_of_spells date le (byte mark :: codes (time ++ zone))
    have split : codes (day ++ mark :: (time ++ zone)) = codes day ++ byte mark :: codes (time ++ zone) := by
      rw [codes_append, codes_cons]
    have cut : (codes day ++ byte mark :: codes (time ++ zone)).drop day.length =
        byte mark :: codes (time ++ zone) := by
      rw [← length_codes day, List.drop_left]
    have next : (codes day ++ byte mark :: codes (time ++ zone)).drop (day.length + 1) = codes (time ++ zone) := by
      rw [← List.drop_drop, cut, List.drop_one, List.tail_cons]
    obtain ⟨_, _, _, whole⟩ := written.isTimeOfDay
    simp [micros?, bytes?_ofChars ascii, split, length, known, cut, one, next, time?_of_spells written shift,
      length_codes, whole]
    ring

/-- Instants that can be spelled are within the range in which doubles are exact. -/
theorem short_of_spells {t : Int} {text : List Char} (spelled : Spells t text) : |t| < 2 ^ 53 := by
  have epoch : (Calendar.epochDay : Int) = 719163 := rfl
  have last : (Calendar.lastDay : Int) = 3652059 := rfl
  rw [abs_lt]
  cases spelled with
  | midnight le day => omega
  | @moment n _ _ _ _ clock offset le day mark time zone =>
    have inside := seconds_lt time
    have shift : -86400 < offset ∧ offset < 86400 := by
      cases zone with
      | none => decide
      | universal => decide
      | ahead written =>
        have := seconds_lt written
        omega
      | behind written =>
        have := seconds_lt written
        omega
    omega

theorem seconds?_of_spells {t : Int} {text : List Char} (spelled : Spells t text) :
    seconds? (Text.ofChars text) = some t := by
  rw [seconds?, micros?_of_spells spelled, Option.map_some, Option.some.injEq]
  rcases eq_or_ne t 0 with rfl | nonzero
  · decide
  · exact Double.trunc_of_ratio (Double.ratio_nearest (by decide) nonzero (short_of_spells spelled))

/-- Each second of the years from 1 to 9999 is spelled by some text. -/
theorem exists_spells {n s : Nat} (filled : 1 ≤ n) (le : n ≤ Calendar.lastDay) (inside : s < 86400) :
    ∃ text, Spells (((n : Int) - Calendar.epochDay) * 86400 + s) text := by
  obtain ⟨n, rfl⟩ := Nat.exists_eq_add_of_le' filled
  obtain ⟨year, month, day, known⟩ := Calendar.exists_isDay n
  have clock : SpellsClock { hour := s / 3600, minute := s / 60 % 60, second := s % 60 } _ :=
    .second (by omega) (by omega) (by omega) .none
  have moment := Spells.moment le (.date known) (.inl rfl) clock .none
  have count : Clock.seconds { hour := s / 3600, minute := s / 60 % 60, second := s % 60 } = s := by
    simp only [Clock.seconds]
    omega
  rw [count, sub_zero] at moment
  exact ⟨_, moment⟩

end ChartOverlay.Instant
