import ChartOverlay.Proofs.Powers

/-!
# Closes upside down

Exactly calculated, the closes turned upside down exchange the two powers: the lowest of a window becomes the
highest, at the same age (`StandsAt.mirrored`), so bull power becomes bear power below zero and the other way round.
An average turns with its values whatever the weights are, and of the two colors of a direction one becomes the
other: `direction_mirrored`.
-/

namespace ChartOverlay

open Arith

/-- The color with rising and falling exchanged. -/
def DirectionColor.mirrored : DirectionColor → DirectionColor
  | green => red
  | red => green
  | yellow => yellow

/-- How many deviations of a curve a window spans. -/
def Span.number {α : Type} [Arith α] : Span α → α
  | whole n => ofInt n
  | value x => x

namespace Exact

variable {α : Type} [Exact α]

/-- The values with their signs changed. -/
def mirrored (values : List α) : List α := values.map fun x => -x

theorem length_mirrored (values : List α) : (mirrored values).length = values.length := List.length_map _

theorem getElem?_mirrored (values : List α) (i : Nat) : (mirrored values)[i]? = values[i]?.map fun x => -x :=
  List.getElem?_map

theorem sum_mirrored (values : List α) : (mirrored values).sum = -values.sum := (List.sum_neg values).symm

theorem trailing_mirrored (n : Nat) (values : List α) (i : Nat) :
    trailing n (mirrored values) i = mirrored (trailing n values i) := trailing_map _ n values i

/-! ### Extremes -/

theorem eq_of_level {x y : α} (below : lt x y = false) (above : lt y x = false) : x = y :=
  eq_iff.mp ((hasGaps.eq_iff rfl rfl).mpr ⟨below, above⟩)

section Extremes
variable {beats turned : α → α → Bool} {values : List α} {period : Int} {i age age' : Nat} {x y : α}

theorem standsAt_mirrored (opposite : ∀ x y, turned (-x) (-y) = beats x y)
    (stands : StandsAt beats values period i x age) : StandsAt turned (mirrored values) period i (-x) age where
  recent := stands.recent
  place := by rw [getElem?_mirrored, stands.place, Option.map_some]
  extreme := by
    intro y member
    rw [trailing_mirrored] at member
    obtain ⟨z, inside, rfl⟩ := List.mem_map.mp member
    rw [opposite]
    exact stands.extreme z inside
  later := by
    intro k y after before found
    rw [getElem?_mirrored] at found
    obtain ⟨z, read, rfl⟩ := Option.map_eq_some_iff.mp found
    rw [opposite]
    exact stands.later k z after before read

/-- A window has one most recent extreme. -/
theorem standsAt_unique (law : IsRanking beats) (level : ∀ {x y}, beats x y = false → beats y x = false → x = y)
    (whole : period ≤ i + 1) (stands : StandsAt beats values period i x age)
    (stands' : StandsAt beats values period i y age') : x = y ∧ age = age' := by
  obtain rfl := level (stands'.extreme x stands.mem) (stands.extreme y stands'.mem)
  refine ⟨rfl, ?_⟩
  have := stands.recent
  have := stands'.recent
  have above := law.irrefl x
  rcases Nat.lt_trichotomy age age' with younger | same | older
  · rw [stands'.later (i - age) x (by omega) (Nat.sub_le i age) stands.place] at above
    cases above
  · exact same
  · rw [stands.later (i - age') x (by omega) (Nat.sub_le i age') stands'.place] at above
    cases above

end Extremes

/-! ### Powers -/

theorem isExtension_unique {gap power power' : α} {age : Nat} (h : IsExtension gap age power)
    (h' : IsExtension gap age power') : power = power' := by
  rcases h.nonneg.eq_or_lt with level | pos
  · rw [h.level level.symm, h'.level level.symm]
  · rw [(h.extended pos).2.1, (h'.extended pos).2.1]

/-- Bull and bear power exchanged, each on its own side of zero. -/
def mirroredPowers (powers : Powers α) : Powers α where
  bull := mirrored powers.bear
  bear := mirrored powers.bull

section Powers
variable {closes : List α} {window : Int} {powers others : Powers α}

theorem bar_mirrored (valid : 1 ≤ window) (h : bullBearPower closes window = .ok powers)
    (h' : bullBearPower (mirrored closes) window = .ok others) {i : Nat} (whole : window ≤ i + 1)
    (inside : i < closes.length) :
    others.bull[i]? = (mirrored powers.bear)[i]? ∧ others.bear[i]? = (mirrored powers.bull)[i]? := by
  obtain ⟨close, bull, bear, low, lowAge, high, highAge, here, bulls, bears, bottom, upward, top, downward⟩ :=
    isExtension_of_ok valid h whole inside
  obtain ⟨close', bull', bear', low', lowAge', high', highAge', here', bulls', bears', bottom', upward', top',
    downward'⟩ := isExtension_of_ok valid h' whole (by rwa [length_mirrored])
  obtain rfl : -close = close' := by
    rw [getElem?_mirrored, here] at here'
    exact Option.some.inj here'
  have opposite (x y : α) : lt (-x) (-y) = gt x y := by simp [gt, lt]
  have opposite' (x y : α) : gt (-x) (-y) = lt x y := opposite y x
  have turned := standsAt_mirrored opposite top
  have turned' := standsAt_mirrored opposite' bottom
  obtain ⟨rfl, rfl⟩ := standsAt_unique hasGaps.ranking eq_of_level whole turned bottom'
  obtain ⟨rfl, rfl⟩ := standsAt_unique hasGaps.turned (fun below above => eq_of_level above below) whole turned' top'
  rw [neg_sub_neg] at upward' downward'
  have bull := isExtension_unique upward' downward
  have bear := isExtension_unique downward' upward
  rw [getElem?_mirrored, getElem?_mirrored, bulls, bears, bulls', bears', Option.map_some, Option.map_some, bull,
    ← neg_eq_iff_eq_neg.mpr bear.symm]
  exact ⟨rfl, rfl⟩

/-- The powers of the closes upside down. -/
theorem bullBearPower_mirrored (valid : 1 ≤ window) (h : bullBearPower closes window = .ok powers) :
    bullBearPower (mirrored closes) window = .ok (mirroredPowers powers) := by
  obtain ⟨others, h'⟩ := exists_bullBearPower (mirrored closes) valid
  have law := hasPowers_of_ok hasGaps (fun x _ => rfl) (fun x _ => rfl) valid h
  have law' := hasPowers_of_ok hasGaps (fun x _ => rfl) (fun x _ => rfl) valid h'
  have size := length_mirrored closes
  have entries (i : Nat) :
      others.bull[i]? = (mirrored powers.bear)[i]? ∧ others.bear[i]? = (mirrored powers.bull)[i]? := by
    rcases Nat.lt_or_ge i closes.length with inside | beyond
    · by_cases whole : window ≤ i + 1
      · exact bar_mirrored valid h h' whole inside
      · obtain ⟨bull, bear⟩ := law.before i (by omega) inside
        obtain ⟨bull', bear'⟩ := law'.before i (by omega) (by omega)
        rw [getElem?_mirrored, getElem?_mirrored, bull, bear, bull', bear']
        simp
    · have sizes := law.bull_length
      have sizes' := law.bear_length
      have others := law'.bull_length
      have others' := law'.bear_length
      rw [getElem?_mirrored, getElem?_mirrored, List.getElem?_eq_none (by omega), List.getElem?_eq_none (by omega),
        List.getElem?_eq_none (by omega), List.getElem?_eq_none (by omega)]
      exact ⟨rfl, rfl⟩
  have bull : others.bull = mirrored powers.bear := List.ext_getElem? fun i => (entries i).1
  have bear : others.bear = mirrored powers.bull := List.ext_getElem? fun i => (entries i).2
  rw [h', mirroredPowers, ← bull, ← bear]

end Powers

/-! ### Averages -/

/-- The averages of all values under the weights of their lags. -/
def smoothed (weights values : List α) : List α :=
  (List.range values.length).map fun i => weightedMean weights (values.take (i + 1)).reverse

theorem weightedMean_mirrored (weights newestFirst : List α) :
    weightedMean weights (mirrored newestFirst) = -weightedMean weights newestFirst := by
  have products (used : List α) : List.zipWith (fun x w => x * w) (mirrored newestFirst) used =
      mirrored (List.zipWith (fun x w => x * w) newestFirst used) := by
    rw [mirrored, mirrored, List.zipWith_map_left, List.map_zipWith]
    simp only [neg_mul]
  unfold weightedMean
  simp only [length_mirrored, products, total_eq, sum_mirrored]
  split
  · rw [zero_eq, neg_zero]
  · rw [neg_div]

theorem smoothed_mirrored (weights values : List α) :
    smoothed weights (mirrored values) = mirrored (smoothed weights values) := by
  rw [smoothed, smoothed, length_mirrored, mirrored, mirrored, List.map_map]
  refine List.map_congr_left fun i _ => ?_
  rw [← List.map_take, ← List.map_reverse]
  exact weightedMean_mirrored weights _

/-! ### Directions -/

section Directions
open BullBearConfig

/-- A direction upside down, its colors exchanged. -/
def mirroredDirection (directed : List α × List DirectionColor) : List α × List DirectionColor :=
  (mirrored directed.1, directed.2.map .mirrored)

theorem slopeColor_mirrored (next last : α) : slopeColor (-next) (-last) = (slopeColor next last).mirrored := by
  unfold slopeColor
  simp only [gt_iff, lt_iff, neg_lt_neg_iff]
  split_ifs with falls rises rises
  · exact absurd rises (lt_asymm falls)
  · rfl
  · rfl
  · rfl

/-- The two tests of a color exclude each other, because bear power is not above bull power. -/
theorem powerColor_mirrored {direction bull bear : α} (order : bear ≤ bull) :
    powerColor (-direction) (-bear) (-bull) = (powerColor direction bull bear).mirrored := by
  unfold powerColor
  simp only [gt_iff, lt_iff, neg_lt_neg_iff]
  split_ifs with falls rises rises
  · exact absurd (falls.trans_le order) (lt_asymm rises)
  · rfl
  · rfl
  · rfl

theorem zeros_mirrored (n : Nat) (values : List α) :
    List.replicate n 0.0 ++ mirrored values = mirrored (List.replicate n 0.0 ++ values) := by
  rw [mirrored, mirrored, List.map_append, List.map_replicate, zero_eq, neg_zero]

/-- The direction that averages give from the first whole window on, colored by its slope. -/
def sloped (config : BullBearConfig α) (averages : List α) : List α × List DirectionColor :=
  let first := (config.window - 1).toNat
  let direction := List.replicate (min first averages.length) 0.0 ++ averages.drop first
  let slopes := List.zipWith slopeColor (direction.drop (first + 1)) (direction.drop first)
  (direction, List.replicate (min (first + 1) averages.length) .yellow ++ slopes)

theorem sloped_mirrored (config : BullBearConfig α) (averages : List α) :
    sloped config (mirrored averages) = mirroredDirection (sloped config averages) := by
  have late (n : Nat) (values : List α) : (mirrored values).drop n = mirrored (values.drop n) := List.map_drop.symm
  have slopes (nexts lasts : List α) : List.zipWith slopeColor (mirrored nexts) (mirrored lasts) =
      (List.zipWith slopeColor nexts lasts).map .mirrored := by
    rw [mirrored, mirrored, List.zipWith_map, List.map_zipWith]
    simp only [slopeColor_mirrored]
  unfold sloped mirroredDirection
  dsimp only
  rw [length_mirrored, late, zeros_mirrored, late, late, slopes, List.map_append, List.map_replicate]
  rfl

/-- The sums of the two powers. -/
def sums (powers : Powers α) : List α := List.zipWith (· + ·) powers.bull powers.bear

theorem sums_mirrored (powers : Powers α) : sums (mirroredPowers powers) = mirrored (sums powers) := by
  rw [sums, sums, mirroredPowers, mirrored, mirrored, mirrored, List.zipWith_map, List.map_zipWith, List.zipWith_comm]
  simp only [neg_add_rev]

/-- Three times the sum of two powers. -/
def tripled (p : α × α) : α := p.1 * 3 + p.2 * 3

theorem rawDirection_eq (config : BullBearConfig α) (powers : Powers α) :
    let first := (config.window - 1).toNat
    let drawn := (List.zip powers.bull powers.bear).drop first
    config.rawDirection powers =
      (List.replicate (min first powers.bull.length) 0.0 ++ drawn.map tripled,
        List.replicate (min first powers.bull.length) .yellow ++
          drawn.map fun p => powerColor (tripled p) p.1 p.2) := by
  have tripled_eq : (fun p : α × α => p.1 * 3.0 + p.2 * 3.0) = tripled := by
    funext p
    rw [three_eq, tripled]
  dsimp only [BullBearConfig.rawDirection]
  rw [tripled_eq, List.zipWith_map_left, List.zipWith_self]

theorem rawDirection_mirrored (config : BullBearConfig α) {powers : Powers α}
    (sizes : powers.bull.length = powers.bear.length)
    (order : ∀ p ∈ List.zip powers.bull powers.bear, p.2 ≤ p.1) :
    config.rawDirection (mirroredPowers powers) = mirroredDirection (config.rawDirection powers) := by
  have pairs : List.zip (mirrored powers.bear) (mirrored powers.bull) =
      (List.zip powers.bull powers.bear).map fun p => (-p.2, -p.1) := by
    rw [mirrored, mirrored, List.zip_map, ← List.zip_swap, List.map_map]
    rfl
  have values (p : α × α) : tripled (-p.2, -p.1) = -tripled p := by
    rw [tripled, tripled]
    ring
  rw [rawDirection_eq, rawDirection_eq, mirroredPowers, mirroredDirection]
  dsimp only
  rw [pairs, length_mirrored, ← sizes, ← List.map_drop, List.map_map, List.map_map, List.map_append,
    List.map_replicate, List.map_map]
  refine congrArg₂ Prod.mk ?_ (congrArg (_ ++ ·) (List.map_congr_left fun p member => ?_))
  · rw [← zeros_mirrored, mirrored, List.map_map]
    exact congrArg (_ ++ ·) (List.map_congr_left fun p _ => values p)
  · rw [Function.comp_apply, Function.comp_apply, values]
    exact powerColor_mirrored (order p (List.mem_of_mem_drop member))

/-- The direction of powers whose sums are averaged under given weights of the lags. -/
def directionUnder (config : BullBearConfig α) (weights : List α) (powers : Powers α) : List α × List DirectionColor :=
  if config.smooth then sloped config (smoothed weights (sums powers)) else config.rawDirection powers

theorem directionUnder_mirrored (config : BullBearConfig α) (weights : List α) {powers : Powers α}
    (sizes : powers.bull.length = powers.bear.length)
    (order : ∀ p ∈ List.zip powers.bull powers.bear, p.2 ≤ p.1) :
    directionUnder config weights (mirroredPowers powers) =
      mirroredDirection (directionUnder config weights powers) := by
  unfold directionUnder
  split
  · rw [sums_mirrored, smoothed_mirrored, sloped_mirrored]
  · exact rawDirection_mirrored config sizes order

/-- The deviation of the curve over a window is not zero. -/
theorem exists_deviation {sigma : Span α} (sound : sigma.number ≠ 0) {window : Int} (valid : 1 ≤ window) :
    ∃ s, sigma.deviation window = .ok s ∧ s ≠ 0 := by
  have width : (window : α) ≠ 0 := by exact_mod_cast (by omega : window ≠ 0)
  cases sigma with
  | whole n =>
    rw [Span.number, ofInt_eq] at sound
    exact ⟨_, ratio?_eq window (by exact_mod_cast sound), div_ne_zero width sound⟩
  | value x =>
    rw [Span.number] at sound
    refine ⟨window / x, ?_, div_ne_zero width sound⟩
    rw [Span.deviation, ofInt?_eq, ok_bind, div?_eq _ sound]

theorem number_ne_zero {sigma : Span α} (sound : sigma.isDegenerate = false) : sigma.number ≠ 0 := by
  cases sigma with
  | whole n =>
    have pos : 0 < n := by simpa [Span.isDegenerate] using sound
    rw [Span.number, ofInt_eq]
    exact_mod_cast pos.ne'
  | value x =>
    rw [Span.isDegenerate, ← Bool.not_eq_true, le_iff, zero_eq, not_le] at sound
    exact ne_of_gt sound

/-- The weights of the lags depend on the number of values only. -/
theorem exists_weights {sigma : Span α} (sound : sigma.number ≠ 0) {window : Int} (valid : 1 ≤ window) (offset : α)
    (n : Nat) :
    ∃ s weights, sigma.deviation window = .ok s ∧
      bellWeights (min window n).toNat ⌊offset * ((window - 1 : Int) : α)⌋ s = .ok weights ∧
      ∀ values : List α, values.length = n → alma values window offset sigma = .ok (smoothed weights values) := by
  obtain ⟨s, deviation, apart⟩ := exists_deviation sound valid
  have spread : (2.0 : α) * s * s ≠ 0 := by
    rw [two_eq]
    exact mul_ne_zero (mul_ne_zero two_ne_zero apart) apart
  have weight (d : Int) : ∃ w, bellWeight s d = .ok w := by
    rw [bellWeight, ofInt?_eq, ok_bind, div?_eq _ spread]
    exact ⟨_, rfl⟩
  obtain ⟨weights, bell⟩ : ∃ weights,
      bellWeights (min window n).toNat ⌊offset * ((window - 1 : Int) : α)⌋ s = .ok weights :=
    mapM_ok_of_forall fun lag _ => weight _
  refine ⟨s, weights, deviation, bell, ?_⟩
  rintro values rfl
  rw [alma, ofInt?_eq, ok_bind, floor?_eq, ok_bind, deviation, ok_bind, bell]
  rfl

theorem exists_direction {config : BullBearConfig α} (valid : config.isValid = true) (n : Nat) :
    ∃ weights, ∀ powers : Powers α, (sums powers).length = n →
      config.direction powers = .ok (directionUnder config weights powers) := by
  simp only [isValid, Bool.and_eq_true, decide_eq_true_eq, Bool.not_eq_true'] at valid
  obtain ⟨⟨-, factor⟩, sound⟩ := valid
  obtain ⟨-, weights, -, -, average⟩ := exists_weights (number_ne_zero sound) factor peakOffset n
  refine ⟨weights, fun powers size => ?_⟩
  have averaged := average (sums powers) size
  have kept : (smoothed weights (sums powers)).length = (sums powers).length := by
    rw [smoothed, List.length_map, List.length_range]
  unfold directionUnder BullBearConfig.direction
  split
  · rw [sloped, kept, smoothDirection, ← sums, averaged]
    rfl
  · rfl

theorem bear_le_bull {closes : List α} {window : Int} {powers : Powers α} (law : HasPowers closes window powers) :
    ∀ p ∈ List.zip powers.bull powers.bear, p.2 ≤ p.1 := by
  intro p member
  obtain ⟨i, found⟩ := List.mem_iff_getElem?.mp member
  obtain ⟨bull, bear⟩ := List.getElem?_zip_eq_some.mp found
  have inside : i < closes.length := law.bull_length ▸ (List.getElem?_eq_some_iff.mp bull).1
  by_cases whole : window ≤ i + 1
  · obtain ⟨close, up, down, -, bulls, bears, powersAt⟩ := law.bars i whole inside
    obtain rfl := Option.some.inj (bulls.symm.trans bull)
    obtain rfl := Option.some.inj (bears.symm.trans bear)
    have above := le_iff.mp powersAt.signs.bull_nonneg
    have below := le_iff.mp powersAt.signs.bear_nonpos
    exact below.trans above
  · obtain ⟨bulls, bears⟩ := law.before i (by omega) inside
    rw [← Option.some.inj (bulls.symm.trans bull), ← Option.some.inj (bears.symm.trans bear)]

end Directions

end Exact

open Exact

/-- Exactly calculated, the closes upside down give the two powers exchanged on the other sides of zero and the
direction upside down with its colors exchanged; so too under any other weights of the lags. -/
theorem direction_mirrored {α : Type} [Exact α] {config : BullBearConfig α} (valid : config.isValid = true)
    (closes : List α) :
    ∃ powers gaussian, bullBearPower closes config.window = .ok powers ∧
      bullBearPower (mirrored closes) config.window = .ok (mirroredPowers powers) ∧
      config.direction powers = .ok (directionUnder config gaussian powers) ∧
      config.direction (mirroredPowers powers) = .ok (mirroredDirection (directionUnder config gaussian powers)) ∧
      ∀ weights, directionUnder config weights (mirroredPowers powers) =
        mirroredDirection (directionUnder config weights powers) := by
  have first : 1 ≤ config.window := by
    simp only [BullBearConfig.isValid, Bool.and_eq_true, decide_eq_true_eq] at valid
    exact valid.1.1
  obtain ⟨powers, h⟩ := exists_bullBearPower closes first
  have law := hasPowers_of_ok hasGaps (fun x _ => rfl) (fun x _ => rfl) first h
  have sizes := law.bull_length.trans law.bear_length.symm
  have turned (weights : List α) := directionUnder_mirrored config weights sizes (bear_le_bull law)
  obtain ⟨gaussian, directed⟩ := exists_direction valid (sums powers).length
  refine ⟨powers, gaussian, h, bullBearPower_mirrored first h, directed powers rfl, ?_, turned⟩
  rw [← turned]
  exact directed _ (by rw [sums_mirrored, length_mirrored])

theorem direction_mirrored_of_hill :
    ({ window := 2, smooth := false } : BullBearConfig ℝ).isValid = true ∧
      ∃ powers directed, bullBearPower ([1, 3, 2] : List ℝ) 2 = .ok powers ∧
        bullBearPower (mirrored ([1, 3, 2] : List ℝ)) 2 = .ok (mirroredPowers powers) ∧
        ({ window := 2, smooth := false } : BullBearConfig ℝ).direction (mirroredPowers powers) =
          .ok (mirroredDirection directed) := by
  have valid : ({ window := 2, smooth := false } : BullBearConfig ℝ).isValid = true := rfl
  obtain ⟨powers, gaussian, h, h', -, directed, -⟩ := direction_mirrored valid [1, 3, 2]
  exact ⟨valid, powers, _, h, h', directed⟩

end ChartOverlay
