import Mathlib
import ChartOverlay.Proofs.BullBearFaults
import ChartOverlay.Proofs.Exact
import ChartOverlay.Proofs.Extremes

/-!
# Signs of the powers

A power is a gap, extended by its rate over the bars since the extreme. The gap to the most recent extreme of a
window is above zero exactly if the extreme is more extreme than the close, and then it is at least one bar old. So
a power vanishes exactly where the close is the extreme of its window, over doubles and exactly:
`bullBearPower_signs`.
-/

namespace ChartOverlay

open Arith

/-! ### The most recent extreme -/

section Extremes
variable {α : Type} {beats : α → α → Bool} {values : List α} {period : Int} {i age : Nat} {x y : α}

/-- The extreme of the last `period` values up to bar `i`, `age` bars ago: none of them is more extreme, and those
that came later are less so. -/
structure StandsAt (beats : α → α → Bool) (values : List α) (period : Int) (i : Nat) (x : α) (age : Nat) : Prop where
  recent : age < period
  place : values[i - age]? = some x
  extreme : ∀ y ∈ trailing period.toNat values i, beats y x = false
  later : ∀ k y, i - age < k → k ≤ i → values[k]? = some y → beats x y = true

theorem mem_of_mem_trailing {n : Nat} (member : x ∈ trailing n values i) : x ∈ values := by
  obtain ⟨k, -, -, found⟩ := mem_trailing.mp member
  exact List.mem_of_getElem? found

theorem StandsAt.mem (stands : StandsAt beats values period i x age) : x ∈ trailing period.toNat values i := by
  have := stands.recent
  exact mem_trailing.mpr ⟨i - age, by omega, Nat.sub_le i age, stands.place⟩

/-- An extreme at the bar itself is the value there. -/
theorem StandsAt.eq_of_age_eq_zero (stands : StandsAt beats values period i x 0) (here : values[i]? = some y) :
    x = y :=
  Option.some.inj (stands.place.symm.trans here)

variable [Arith α]

theorem exists_standsAt (law : IsRanking beats) (numbers : ∀ x ∈ values, isNaN x = false) (valid : 1 ≤ period)
    (whole : period ≤ i + 1) (inside : i < values.length) :
    ∃ x age, (rolling period (extreme? beats) values)[i]? = some (some x) ∧
      (rolling period (extremeAge? beats) values)[i]? = some (some age) ∧ StandsAt beats values period i x age := by
  have weak (x y : α) (_ : isNaN x = false) (_ : isNaN y = false) (below : beats y x = false) :
      (!beats y x) = true := by rw [below]; rfl
  have strict (x y : α) : (fun y x => beats x y) y x = beats x y := rfl
  obtain ⟨extreme, age, read, aged, agree⟩ := exists_agree law strict weak valid whole inside
  obtain ⟨x, rfl, place, all, later⟩ := agree.defined fun y member => numbers y (mem_of_mem_trailing member)
  refine ⟨x, age, read, aged, agree.recent, place, ?_, later⟩
  intro y member
  simpa using all y member

/-- The extreme is not more extreme than a value exactly if nothing in the window is. -/
theorem StandsAt.level_iff (law : IsRanking beats) (stands : StandsAt beats values period i x age)
    (number : isNaN x = false) :
    beats x y = false ↔ ∀ z ∈ trailing period.toNat values i, beats z y = false := by
  refine ⟨fun level z member => ?_, fun all => all x stands.mem⟩
  rw [← Bool.not_eq_true] at level ⊢
  intro above
  rcases law.between number above with beyond | beaten
  · rw [stands.extreme z member] at beyond
    cases beyond
  · exact level beaten

end Extremes

/-! ### One power -/

section Sizes
variable {α : Type} [Arith α]

/-- What the sign of a power needs of numbers. -/
structure HasGaps (α : Type) [Arith α] : Prop where
  ranking : IsRanking (lt (α := α))
  eq_iff : ∀ {x y : α}, isNaN x = false → isNaN y = false → (eq x y = true ↔ lt x y = false ∧ lt y x = false)
  zero : isNaN (0.0 : α) = false
  level : ∀ {x : α}, isFinite x = true → isZero (x - x) = true
  sub : ∀ {x y : α}, lt 0.0 (x - y) = true ↔ lt y x = true
  neg : ∀ {x : α}, lt 0.0 x = true → lt (-x) 0.0 = true
  extended : ∀ {x : α} {n : Int}, 0 < n → isFinite (ofInt n : α) = true →
    (lt 0.0 (x + x / ofInt n) = true ↔ lt 0.0 x = true)

namespace HasGaps
variable {x y : α}

theorem turned (law : HasGaps α) : IsRanking (gt (α := α)) where
  numbers h := (law.ranking.numbers h).symm
  asymm h := law.ranking.asymm h
  between number h := (law.ranking.between number h).symm

theorem le_iff (law : HasGaps α) (number : isNaN x = false) (number' : isNaN y = false) :
    le x y = true ↔ lt y x = false := by
  rw [le, Bool.or_eq_true, law.eq_iff number number']
  constructor
  · rintro (below | level)
    · exact law.ranking.asymm below
    · exact level.2
  · intro above
    cases below : lt x y with
    | true => exact Or.inl rfl
    | false => exact Or.inr ⟨rfl, above⟩

theorem isZero_iff (law : HasGaps α) (number : isNaN x = false) :
    isZero x = true ↔ lt x 0.0 = false ∧ lt 0.0 x = false := law.eq_iff number law.zero

theorem isZero_of_zero_lt (law : HasGaps α) (above : lt 0.0 x = true) : isZero x = false := by
  rw [← Bool.not_eq_true, law.isZero_iff (law.ranking.numbers above).2, above]
  exact nofun

end HasGaps

theorem ofInt?_ok {n : Int} {x : α} (h : ofInt? n = .ok x) : isFinite (ofInt n : α) = true ∧ ofInt n = x := by
  unfold ofInt? at h
  dsimp only at h
  split at h
  · rename_i finite
    exact ⟨finite, Except.ok.inj h⟩
  · cases h

/-- The size of a power as it would be if an extreme at the bar itself were none bars ago. -/
def plainPower (gap : α) (age : Nat) : Except Fault (Option α) := do
  let x ← extendedGap gap age
  return if gt x 0.0 then some x else none

theorem power_eq_plainPower (gap : α) {age : Nat} (earlier : 1 ≤ age) :
    power gap (some age) = plainPower gap age := by
  rw [power, plainPower, Option.getD_some, Nat.max_eq_left earlier]

/-- A power has a size exactly if its gap is above zero. -/
theorem power_cases (law : HasGaps α) {gap : α} {age : Nat} {size : Option α} (h : power gap (some age) = .ok size) :
    (lt 0.0 gap = true ∧ ∃ x, size = some x ∧ lt 0.0 x = true) ∨ lt 0.0 gap = false ∧ size = none := by
  have pos : (0 : Int) < (max age 1 : Nat) := by omega
  obtain ⟨x, extended, h⟩ := bind_ok h
  rw [Option.getD_some, extendedGap, if_neg (by omega)] at extended
  obtain ⟨n, whole, extended⟩ := bind_ok extended
  obtain ⟨finite, rfl⟩ := ofInt?_ok whole
  obtain rfl := pure_ok extended
  obtain rfl := pure_ok h
  rw [gt]
  cases above : lt 0.0 gap with
  | true =>
    have kept := (law.extended pos finite).mpr above
    exact Or.inl ⟨rfl, _, if_pos kept, kept⟩
  | false =>
    refine Or.inr ⟨rfl, if_neg ?_⟩
    rw [law.extended pos finite, above]
    exact Bool.false_ne_true

/-- An extreme at the bar itself leaves no gap, so it does not matter how many bars ago it is. -/
theorem power_eq_plainPower_of_level (law : HasGaps α) {gap : α} {age : Nat} (far : lt 0.0 gap = true → 1 ≤ age)
    {size : Option α} (h : power gap (some age) = .ok size) : plainPower gap age = .ok size := by
  rcases Nat.eq_zero_or_pos age with rfl | earlier
  · rcases power_cases law h with ⟨above, -⟩ | ⟨level, rfl⟩
    · exact absurd (far above) (by decide)
    · show Except.ok (if lt 0.0 gap then some gap else none) = _
      rw [level]
      rfl
  · exact power_eq_plainPower gap earlier ▸ h

section Signs
variable {gap : α} {age : Nat} {size : Option α}

theorem le_zero_zero (law : HasGaps α) : le (0.0 : α) 0.0 = true :=
  (law.le_iff law.zero law.zero).mpr (law.ranking.irrefl _)

theorem isZero_zero (law : HasGaps α) : isZero (0.0 : α) = true :=
  (law.isZero_iff law.zero).mpr ⟨law.ranking.irrefl _, law.ranking.irrefl _⟩

/-- A bull power is its size. -/
theorem bull_sign (law : HasGaps α) (h : power gap (some age) = .ok size) :
    le 0.0 (size.getD 0.0) = true ∧ (isZero (size.getD 0.0) = true ↔ lt 0.0 gap = false) := by
  rcases power_cases law h with ⟨above, x, rfl, pos⟩ | ⟨level, rfl⟩
  · have number := (law.ranking.numbers pos).2
    rw [Option.getD_some, law.le_iff law.zero number, law.isZero_iff number, above, pos]
    exact ⟨law.ranking.asymm pos, iff_of_false (fun zero => nomatch zero.2) nofun⟩
  · exact ⟨le_zero_zero law, iff_of_true (isZero_zero law) level⟩

/-- A bear power is its size below zero. -/
theorem bear_sign (law : HasGaps α) (h : power gap (some age) = .ok size) :
    le ((size.map fun x => -x).getD 0.0) 0.0 = true ∧
      (isZero ((size.map fun x => -x).getD 0.0) = true ↔ lt 0.0 gap = false) := by
  rcases power_cases law h with ⟨above, x, rfl, pos⟩ | ⟨level, rfl⟩
  · have below := law.neg pos
    have number := (law.ranking.numbers below).1
    rw [Option.map_some, Option.getD_some, law.le_iff number law.zero, law.isZero_iff number, above, below]
    exact ⟨law.ranking.asymm below, iff_of_false (fun zero => nomatch zero.1) nofun⟩
  · exact ⟨le_zero_zero law, iff_of_true (isZero_zero law) level⟩

end Signs

end Sizes

/-! ### The powers of a bar -/

section Bars
variable {α : Type} [Arith α]

/-- The signs of the powers at a bar, by the closes of its window. -/
structure HasSigns (window : List α) (close bull bear : α) : Prop where
  bull_nonneg : le 0.0 bull = true
  bear_nonpos : le bear 0.0 = true
  bull_zero : isZero bull = true ↔ ∀ y ∈ window, le close y = true
  bear_zero : isZero bear = true ↔ ∀ y ∈ window, le y close = true
  flat : isZero bull = true ∧ isZero bear = true ↔ ∀ x ∈ window, ∀ y ∈ window, eq x y = true
  inside : (∃ y ∈ window, lt y close = true) → (∃ y ∈ window, lt close y = true) →
    isZero bull = false ∧ isZero bear = false

/-- The size of a power by its gap to the extreme of a window, `age` bars ago; none where it is floored. That an
extreme at the bar itself counts as one bar ago makes no difference, for only an extreme before it leaves a gap. -/
structure IsSize (gap : α) (age : Nat) (size : Option α) : Prop where
  floored : power gap (some age) = .ok size
  plain : plainPower gap age = .ok size
  earlier : isZero gap = false → 1 ≤ age

theorem hasSigns_of_zero (law : HasGaps α) {window : List α} {close bull bear : α} (member : close ∈ window)
    (numbers : ∀ y ∈ window, isNaN y = false) (nonneg : le 0.0 bull = true) (nonpos : le bear 0.0 = true)
    (lowest : isZero bull = true ↔ ∀ y ∈ window, lt y close = false)
    (highest : isZero bear = true ↔ ∀ y ∈ window, lt close y = false) : HasSigns window close bull bear where
  bull_nonneg := nonneg
  bear_nonpos := nonpos
  bull_zero := by
    rw [lowest]
    exact forall₂_congr fun y inside => (law.le_iff (numbers close member) (numbers y inside)).symm
  bear_zero := by
    rw [highest]
    exact forall₂_congr fun y inside => (law.le_iff (numbers y inside) (numbers close member)).symm
  flat := by
    rw [lowest, highest]
    constructor
    · rintro ⟨bottom, top⟩ x first y second
      have apart (x y : α) (first : x ∈ window) (second : y ∈ window) : lt x y = false := by
        rw [← Bool.not_eq_true]
        intro below
        rcases law.ranking.between (numbers close member) below with under | beyond
        · rw [bottom x first] at under
          cases under
        · rw [top y second] at beyond
          cases beyond
      exact (law.eq_iff (numbers x first) (numbers y second)).mpr ⟨apart x y first second, apart y x second first⟩
    · intro same
      have level (y : α) (inside : y ∈ window) :=
        (law.eq_iff (numbers close member) (numbers y inside)).mp (same close member y inside)
      exact ⟨fun y inside => (level y inside).2, fun y inside => (level y inside).1⟩
  inside := by
    rintro ⟨y, below, under⟩ ⟨z, above, beyond⟩
    rw [← Bool.not_eq_true, ← Bool.not_eq_true, lowest, highest]
    refine ⟨fun all => ?_, fun all => ?_⟩
    · rw [all y below] at under
      cases under
    · rw [all z above] at beyond
      cases beyond

/-- The powers at a bar, by the signs they have and the extremes that they are calculated from. -/
structure PowersAt (closes : List α) (window : Int) (i : Nat) (close bull bear : α) : Prop where
  signs : HasSigns (trailing window.toNat closes i) close bull bear
  lowest : ∃ low age size, StandsAt lt closes window i low age ∧ IsSize (close - low) age size ∧
    bull = size.getD 0.0
  highest : ∃ high age size, StandsAt gt closes window i high age ∧ IsSize (high - close) age size ∧
    bear = (size.map fun x => -x).getD 0.0

/-- The powers of all bars, zero before the first full window. -/
structure HasPowers (closes : List α) (window : Int) (powers : Powers α) : Prop where
  bull_length : powers.bull.length = closes.length
  bear_length : powers.bear.length = closes.length
  before : ∀ i : Nat, i + 1 < window → i < closes.length →
    powers.bull[i]? = some 0.0 ∧ powers.bear[i]? = some 0.0
  bars : ∀ i : Nat, window ≤ i + 1 → i < closes.length →
    ∃ close bull bear, closes[i]? = some close ∧ powers.bull[i]? = some bull ∧ powers.bear[i]? = some bear ∧
      PowersAt closes window i close bull bear

theorem isSize_of_power (law : HasGaps α) {gap : α} {age : Nat} {size : Option α}
    (h : power gap (some age) = .ok size) (level : age = 0 → isZero gap = true) : IsSize gap age size where
  floored := h
  plain := by
    refine power_eq_plainPower_of_level law (fun above => ?_) h
    rw [Nat.one_le_iff_ne_zero]
    intro here
    have zero := level here
    rw [law.isZero_of_zero_lt above] at zero
    cases zero
  earlier := by
    intro apart
    rw [Nat.one_le_iff_ne_zero]
    intro here
    rw [level here] at apart
    cases apart

variable {closes : List α} {window : Int} {i : Nat}

theorem powersAt_of_powersAt? (law : HasGaps α) (finite : ∀ x ∈ closes, isFinite x = true)
    (numbers : ∀ x ∈ closes, isNaN x = false) (valid : 1 ≤ window) (whole : window ≤ i + 1)
    {close : α} (here : closes[i]? = some close) {p : α × α}
    (h : powersAt? closes (highest closes window) (lowest closes window) (highestBars closes window)
      (lowestBars closes window) i = .ok p) : PowersAt closes window i close p.1 p.2 := by
  have inside : i < closes.length := (List.getElem?_eq_some_iff.mp here).1
  obtain ⟨high, highAge, highs, highAges, top⟩ := exists_standsAt law.turned numbers valid whole inside
  obtain ⟨low, lowAge, lows, lowAges, bottom⟩ := exists_standsAt law.ranking numbers valid whole inside
  simp only [powersAt?, highest, lowest, highestBars, lowestBars, entry?_natCast here, entry?_natCast highs,
    entry?_natCast lows, entry?_natCast highAges, entry?_natCast lowAges, ok_bind, sub?] at h
  obtain ⟨down, bear, h⟩ := bind_ok h
  obtain ⟨up, bull, h⟩ := bind_ok h
  obtain rfl := pure_ok h
  obtain ⟨nonneg, bullZero⟩ := bull_sign law bull
  obtain ⟨nonpos, bearZero⟩ := bear_sign law bear
  have level : isZero (close - close) = true := law.level (finite close (List.mem_of_getElem? here))
  refine ⟨?_, ⟨low, lowAge, up, bottom, ?_, rfl⟩, ⟨high, highAge, down, top, ?_, rfl⟩⟩
  · refine hasSigns_of_zero law ?_ (fun y member => numbers y (mem_of_mem_trailing member)) nonneg nonpos ?_ ?_
    · exact mem_trailing.mpr ⟨i, by omega, Nat.le_refl i, here⟩
    · rw [bullZero, ← bottom.level_iff law.ranking (numbers low (mem_of_mem_trailing bottom.mem)),
        ← Bool.not_eq_true, law.sub, Bool.not_eq_true]
    · rw [bearZero, ← Bool.not_eq_true, law.sub, Bool.not_eq_true]
      exact top.level_iff law.turned (numbers high (mem_of_mem_trailing top.mem))
  · refine isSize_of_power law bull ?_
    rintro rfl
    rwa [bottom.eq_of_age_eq_zero here]
  · refine isSize_of_power law bear ?_
    rintro rfl
    rwa [top.eq_of_age_eq_zero here]

theorem hasPowers_of_ok (law : HasGaps α) (finite : ∀ x ∈ closes, isFinite x = true)
    (numbers : ∀ x ∈ closes, isNaN x = false) (valid : 1 ≤ window) {powers : Powers α}
    (h : bullBearPower closes window = .ok powers) : HasPowers closes window powers := by
  obtain ⟨answers, swept, h⟩ := bind_ok h
  have size := length_sweepUpTo swept
  have nonneg : 0 ≤ window - 1 := by omega
  obtain rfl : (⟨padded (window - 1) closes.length 0.0 (answers.map (·.1)),
    padded (window - 1) closes.length 0.0 (answers.map (·.2))⟩ : Powers α) = powers := pure_ok h
  refine ⟨length_padded nonneg (by rwa [List.length_map]), length_padded nonneg (by rwa [List.length_map]), ?_, ?_⟩
  · intro i before inside
    exact ⟨getElem?_padded_before (by omega) inside, getElem?_padded_before (by omega) inside⟩
  · intro i whole inside
    obtain ⟨p, calculated, answer⟩ := getElem?_sweepUpTo swept (by omega : window - 1 ≤ i) (by omega)
    refine ⟨closes[i], p.1, p.2, List.getElem?_eq_getElem inside, ?_, ?_, ?_⟩
    · rw [getElem?_padded nonneg (by omega) inside, List.getElem?_map, answer, Option.map_some]
    · rw [getElem?_padded nonneg (by omega) inside, List.getElem?_map, answer, Option.map_some]
    · exact powersAt_of_powersAt? law finite numbers valid whole (List.getElem?_eq_getElem inside) calculated

end Bars

/-! ### Doubles -/

namespace Double

open Float.Model (UnpackedFloat)
open Float.Model.UnpackedFloat

/-- What is above zero stays so when something that is not below zero is added to it. -/
theorem side_add_eq_gt {x y : UnpackedFloat} (left : IsCanonical x) (right : IsCanonical y)
    (first : side x = some .gt) (number : side y ≠ none) (second : side y ≠ some .lt) :
    side (x.add .binary64 y) = some .gt := by
  by_cases finite : x.isFinite ∧ y.isFinite
  · rw [side_units finite.1, Option.some_inj, Int.compare_eq_gt] at first
    rw [side_units finite.2, Ne, Option.some_inj, Int.compare_eq_lt] at second
    rw [side_add left right finite.1 finite.2, Option.some_inj, Int.compare_eq_gt]
    omega
  · rcases x with (_ | _) | _ | s | ⟨_ | _, m, e, pos⟩ <;>
      rcases y with (_ | _) | _ | t | ⟨_ | _, n, f, pos'⟩ <;>
      first
      | rfl
      | cases first; done
      | exact absurd rfl second
      | exact absurd rfl number
      | exact absurd ⟨rfl, rfl⟩ finite

/-- A number divided by a finite one above zero is a number. -/
theorem side_div_ne_none {x y : UnpackedFloat} (number : side x ≠ none) (above : side y = some .gt)
    (finite : y.isFinite) : side (x.div .binary64 y) ≠ none := by
  rcases y with t | _ | t | ⟨t, n, f, pos'⟩
  · cases finite
  · cases finite
  · cases t <;> cases above
  · rcases x with s | _ | s | ⟨s, m, e, pos⟩
    · cases s <;> cases t <;> exact nofun
    · exact absurd rfl number
    · cases s <;> cases t <;> exact nofun
    · rw [UnpackedFloat.div]
      intro none
      rcases side_roundWithAccuracy _ _ _ _ with zero | kept
      · rw [zero] at none
        cases none
      · rw [kept] at none
        cases none

variable {x y : Float}

theorem zero_lt_sub_iff : lt 0.0 (x - y) = true ↔ lt y x = true := by
  refine ⟨fun above => ?_, zero_lt_sub⟩
  have left := isCanonical_toModel x
  have right := isCanonical_toModel y
  rw [zero_lt_iff, unpack_sub, side_unpack_pack (isRounded_sub left right)] at above
  rw [lt_eq, beq_iff_eq, ← compare_swap]
  rcases side_sub left right with same | ⟨none, -⟩
  · rw [← same, above]
    rfl
  · rw [none] at above
    cases above

theorem isZero_sub_self (finite : isFinite x = true) : isZero (x - x) = true := by
  have canonical := isCanonical_toModel x
  rw [isFinite_toModel] at finite
  rw [isZero_iff, unpack_sub, side_unpack_pack (isRounded_sub canonical canonical), sub_eq_add_neg,
    side_add canonical (isCanonical_neg canonical) finite ((isFinite_neg _).trans finite), units_neg,
    Int.add_right_neg, Int.compare_eq_eq.mpr rfl]

theorem neg_lt_zero (above : lt 0.0 x = true) : lt (-x) 0.0 = true := by
  have canonical := isCanonical_neg (isCanonical_toModel x)
  rw [zero_lt_iff] at above
  rw [lt_zero_iff]
  show side (unpack .binary64 (pack .binary64 x.toModel.unpack.neg)) = some .lt
  rw [side_unpack_pack (isRounded_of_isCanonical canonical), side_neg, above]
  rfl

/-- A value and the same extended by its share of so many bars lie above zero together. -/
theorem zero_lt_extended_iff {n : Int} (pos : 0 < n) (finite : isFinite (ofInt n : Float) = true) :
    lt 0.0 (x + x / ofInt n) = true ↔ lt 0.0 x = true := by
  have left := isCanonical_toModel x
  have right := isCanonical_toModel (x / ofInt n)
  have sign := ofInt_sign (Int.le_of_lt pos)
  rw [zero_lt_iff, zero_lt_iff, unpack_add, side_unpack_pack (isRounded_add left right)]
  constructor
  · contrapose
    intro below
    have ⟨rounded, kept⟩ := side_div (r := .positive) below sign
    rw [← side_unpack_pack rounded, ← unpack_div] at kept
    exact side_add_ne (r := .positive) left right below kept
  · intro above
    have below : side x.toModel.unpack ≠ some (ordering .negative) := by rw [above]; exact nofun
    have number : side x.toModel.unpack ≠ none := by rw [above]; exact nofun
    have ⟨rounded, kept⟩ := side_div below sign
    have quotient := side_div_ne_none number (zero_lt_iff.mp (zero_lt_ofInt pos)) finite
    rw [← side_unpack_pack rounded, ← unpack_div] at kept quotient
    exact side_add_eq_gt left right above quotient kept

theorem hasGaps : HasGaps Float where
  ranking := isRanking_lt
  eq_iff number number' := by
    rw [eq_iff_place number number', ← Bool.not_eq_true, ← Bool.not_eq_true, lt_iff_place number number',
      lt_iff_place number' number, not_lt, not_lt, le_antisymm_iff, and_comm]
  zero := rfl
  level := isZero_sub_self
  sub := zero_lt_sub_iff
  neg := neg_lt_zero
  extended := zero_lt_extended_iff

end Double

/-! ### Exact powers -/

namespace Exact

variable {α : Type} [Exact α]

theorem isRanking_lt : IsRanking (lt (α := α)) where
  numbers _ := ⟨rfl, rfl⟩
  asymm h := decide_eq_false (lt_asymm (lt_iff.mp h))
  between _ h := by
    rw [lt_iff] at h
    rw [lt_iff, lt_iff]
    exact (lt_or_ge _ _).imp_right fun above => above.trans_lt h

theorem hasGaps : HasGaps α where
  ranking := isRanking_lt
  eq_iff _ _ := by
    rw [eq_iff, ← Bool.not_eq_true, ← Bool.not_eq_true, lt_iff, lt_iff, not_lt, not_lt, le_antisymm_iff, and_comm]
  zero := rfl
  level _ := by rw [isZero_iff, sub_self]
  sub := by
    intro x y
    rw [lt_iff, lt_iff, zero_eq, sub_pos]
  neg h := by
    rw [lt_iff, zero_eq] at h ⊢
    exact neg_neg_of_pos h
  extended := by
    intro x n pos _
    have share : (0 : α) < 1 + 1 / n := by positivity
    have scaled : x + x / n = x * (1 + 1 / n) := by ring
    rw [lt_iff, lt_iff, zero_eq, ofInt_eq, scaled, mul_pos_iff_of_pos_right share]

theorem power_eq (gap : α) (age : Nat) : power gap (some age) =
    .ok (if 0 < gap + gap / (max age 1 : Nat) then some (gap + gap / (max age 1 : Nat)) else none) := by
  have apart : ((max age 1 : Nat) : Int) ≠ 0 := by omega
  rw [power, Option.getD_some, extendedGap, if_neg apart, ofInt?_eq, ok_bind, Int.cast_natCast]
  show Except.ok _ = _
  simp only [gt_iff, zero_eq]

variable {closes : List α} {window : Int}

/-- Exact powers can always be calculated. -/
theorem exists_bullBearPower (closes : List α) (valid : 1 ≤ window) :
    ∃ powers, bullBearPower closes window = .ok powers := by
  simp only [bullBearPower, exists_ok_bind, exists_ok_pure, and_true, sweepUpTo_eq_mapM, exists_ok_mapM,
    List.mem_range]
  intro k early
  obtain ⟨i, place⟩ := Int.eq_ofNat_of_zero_le (by omega : 0 ≤ window - 1 + k)
  have inside : i < closes.length := by omega
  have numbers : ∀ x ∈ closes, isNaN x = false := fun x _ => rfl
  have here := List.getElem?_eq_getElem inside
  obtain ⟨high, highAge, highs, highAges, -⟩ :=
    exists_standsAt hasGaps.turned numbers valid (by omega : window ≤ i + 1) inside
  obtain ⟨low, lowAge, lows, lowAges, -⟩ :=
    exists_standsAt hasGaps.ranking numbers valid (by omega : window ≤ i + 1) inside
  simp only [place, powersAt?, highest, lowest, highestBars, lowestBars, entry?_natCast here, entry?_natCast highs,
    entry?_natCast lows, entry?_natCast highAges, entry?_natCast lowAges, ok_bind, sub?, power_eq]
  exact ⟨_, rfl⟩

/-- A power is a gap that is extended by its rate over the bars since the extreme, and at most doubled by that. -/
structure IsExtension (gap : α) (age : Nat) (power : α) : Prop where
  nonneg : 0 ≤ gap
  level : gap = 0 → power = 0
  extended : 0 < gap → 1 ≤ age ∧ power = gap + gap / age ∧ gap < power ∧ power ≤ 2 * gap

theorem isExtension_of_isSize {gap : α} {age : Nat} {size : Option α} (nonneg : 0 ≤ gap) (h : IsSize gap age size) :
    IsExtension gap age (size.getD 0) where
  nonneg := nonneg
  level := by
    rintro rfl
    have none := (Except.ok.inj ((power_eq 0 age).symm.trans h.floored)).symm
    rw [zero_div, add_zero, if_neg (lt_irrefl 0)] at none
    rw [none, Option.getD_none]
  extended := by
    intro pos
    have earlier := h.earlier (isZero_eq_false_iff.mpr (ne_of_gt pos))
    have bars : (1 : α) ≤ age := by exact_mod_cast earlier
    have share : 0 < gap / age := by positivity
    have least : gap / age ≤ gap := div_le_self nonneg bars
    have some := (Except.ok.inj ((power_eq gap age).symm.trans h.floored)).symm
    rw [Nat.max_eq_left earlier, if_pos (add_pos pos share)] at some
    rw [some, Option.getD_some]
    exact ⟨earlier, rfl, by linarith, by linarith⟩

theorem bear_eq_neg (size : Option α) : (size.map fun x => -x).getD 0 = -size.getD 0 := by
  cases size with
  | none => exact neg_zero.symm
  | some x => rfl

/-- The exact powers of every bar, by the most recent extremes of its window. -/
theorem isExtension_of_ok (valid : 1 ≤ window) {powers : Powers α} (h : bullBearPower closes window = .ok powers)
    {i : Nat} (whole : window ≤ i + 1) (inside : i < closes.length) :
    ∃ close bull bear low lowAge high highAge, closes[i]? = some close ∧ powers.bull[i]? = some bull ∧
      powers.bear[i]? = some bear ∧ StandsAt lt closes window i low lowAge ∧ IsExtension (close - low) lowAge bull ∧
      StandsAt gt closes window i high highAge ∧ IsExtension (high - close) highAge (-bear) := by
  have law := hasPowers_of_ok hasGaps (fun x _ => rfl) (fun x _ => rfl) valid h
  obtain ⟨close, bull, bear, here, bulls, bears, powersAt⟩ := law.bars i whole inside
  obtain ⟨low, lowAge, up, bottom, upward, rfl⟩ := powersAt.lowest
  obtain ⟨high, highAge, down, top, downward, rfl⟩ := powersAt.highest
  have member : close ∈ trailing window.toNat closes i := mem_trailing.mpr ⟨i, by omega, Nat.le_refl i, here⟩
  have above := bottom.extreme close member
  have below := top.extreme close member
  rw [← Bool.not_eq_true, lt_iff, not_lt, ← sub_nonneg] at above
  rw [← Bool.not_eq_true, gt_iff, not_lt, ← sub_nonneg] at below
  refine ⟨close, _, _, low, lowAge, high, highAge, here, bulls, bears, bottom, ?_, top, ?_⟩
  · rw [zero_eq]
    exact isExtension_of_isSize above upward
  · rw [zero_eq, bear_eq_neg, neg_neg]
    exact isExtension_of_isSize below downward

end Exact

/-- Bull power is never below zero and bear power never above; each vanishes exactly where the close is the lowest or
the highest of its window, whatever the ages of the extremes are. Over finite doubles and exactly; exact powers are the
gap extended by its rate over the age of the most recent extreme. -/
theorem bullBearPower_signs {α : Type} [Exact α] {window : Int} (valid : 1 ≤ window) :
    (∀ closes : List Float, (∀ x ∈ closes, isFinite x = true) →
      (closes.length ≤ Double.limit → ∃ powers, bullBearPower closes window = .ok powers) ∧
      ∀ powers, bullBearPower closes window = .ok powers → HasPowers closes window powers) ∧
    ∀ closes : List α, ∃ powers, bullBearPower closes window = .ok powers ∧ HasPowers closes window powers ∧
      ∀ i : Nat, window ≤ i + 1 → i < closes.length →
        ∃ close bull bear low lowAge high highAge, closes[i]? = some close ∧ powers.bull[i]? = some bull ∧
          powers.bear[i]? = some bear ∧
          StandsAt lt closes window i low lowAge ∧ Exact.IsExtension (close - low) lowAge bull ∧
          StandsAt gt closes window i high highAge ∧ Exact.IsExtension (high - close) highAge (-bear) := by
  constructor
  · intro closes finite
    have numbers : ∀ x ∈ closes, isNaN x = false := fun x member => Double.isNaN_of_isFinite (finite x member)
    refine ⟨fun short => ?_, fun powers h => hasPowers_of_ok Double.hasGaps finite numbers valid h⟩
    refine (bullBearPower_ok_iff numbers valid).mpr fun age member => ?_
    have early := lt_of_mem_extremeAges valid member
    exact Nat.not_le.mpr (by omega : age < Double.limit)
  · intro closes
    obtain ⟨powers, h⟩ := Exact.exists_bullBearPower closes valid
    refine ⟨powers, h, hasPowers_of_ok Exact.hasGaps (fun x _ => rfl) (fun x _ => rfl) valid h, ?_⟩
    intro i whole inside
    exact Exact.isExtension_of_ok valid h whole inside

/-- Closes with equal extremes, two zeros among them. -/
def sinkingCloses : List Float := [3.0, 5.0, 2.0, 2.0, -0.0, 0.0]

example : bullBearPower sinkingCloses 3 =
    .ok (⟨[0.0, 0.0, 0.0, 0.0, 0.0, 0.0], [0.0, 0.0, -6.0, -4.5, -4.0, -3.0]⟩ : Powers Float) := by
  decide +kernel

theorem bullBearPower_signs_of_sinkingCloses :
    (∃ powers, bullBearPower sinkingCloses 3 = .ok powers ∧ HasPowers sinkingCloses 3 powers) ∧
      ∃ powers, bullBearPower ([3, 5, 2, 4] : List ℝ) 3 = .ok powers ∧ HasPowers ([3, 5, 2, 4] : List ℝ) 3 powers := by
  obtain ⟨doubles, exact⟩ := bullBearPower_signs (α := ℝ) (by decide : (1 : Int) ≤ 3)
  obtain ⟨returns, law⟩ := doubles sinkingCloses (by decide +kernel)
  obtain ⟨powers, h⟩ := returns (by decide +kernel)
  obtain ⟨others, h', law', -⟩ := exact [3, 5, 2, 4]
  exact ⟨⟨powers, h, law powers h⟩, others, h', law'⟩

end ChartOverlay
