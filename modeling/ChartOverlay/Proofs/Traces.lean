import ChartOverlay.Proofs.BullBearFaults
import ChartOverlay.Proofs.Placement

/-!
# What the traces of a direction are made of

A trace has one point for each bar that belongs to it and for each bar before such a one (`traceBars`), whichever
way the colors change. So the traces cover every bar, and share those after which the direction turns.
-/

namespace ChartOverlay
variable {α : Type} {times : List Int} {direction : List α} {colors : List DirectionColor} {start i n : Nat}

/-- Whether bar `i` belongs to the trace where the direction rises, or to the other one. -/
def belongs (colors : List DirectionColor) (rises : Bool) (i : Nat) : Bool :=
  colors[i]?.any fun color => decide (color ≠ .red) == rises

/-- Whether a trace has the point of bar `i`. -/
def isDrawn (colors : List DirectionColor) (rises : Bool) (i : Nat) : Bool :=
  belongs colors rises i || belongs colors rises (i + 1)

/-- The bars from `start` on whose points a trace has. -/
def traceBars (colors : List DirectionColor) (start : Nat) (rises : Bool) : List Nat :=
  (List.range' start (colors.length - start)).filter (isDrawn colors rises)

structure IsPointAt (times : List Int) (direction : List α) (i : Nat) (p : Point α) : Prop where
  time : times[i]? = some p.time
  value : direction[i]? = some p.value

theorem belongs_iff {rises : Bool} : belongs colors rises i = true ↔ OnTrace colors rises i := by
  simp only [belongs, Option.any_eq_true, beq_iff_eq, OnTrace, entry?_ok_iff (Int.natCast_nonneg i), Int.toNat_natCast]

theorem belongs_of_onTrace {rises other : Bool} (h : OnTrace colors other i) (apart : other ≠ rises) :
    belongs colors rises i = false := by
  rw [← Bool.not_eq_true, belongs_iff]
  intro also
  exact apart (h.unique also)

theorem belongs_of_length_le {rises : Bool} (h : colors.length ≤ i) : belongs colors rises i = false := by
  rw [belongs, List.getElem?_eq_none h, Option.any_none]

/-- A bar belongs to exactly one of the traces. -/
theorem belongs_false (inside : i < colors.length) : belongs colors false i = !belongs colors true i := by
  simp [belongs, List.getElem?_eq_getElem inside]

theorem isPointAt_of_pointAt? {p : Point α} (h : pointAt? times direction i = .ok p) :
    IsPointAt times direction i p := by
  obtain ⟨t, timed, h⟩ := bind_ok h
  obtain ⟨x, valued, h⟩ := bind_ok h
  obtain rfl := pure_ok h
  rw [entry?_ok_iff (Int.natCast_nonneg i)] at timed valued
  exact ⟨timed, valued⟩

/-! ### The sweep -/

/-- The bar that a trace which bar `i` enters begins with. -/
def bridge (colors : List DirectionColor) (start : Nat) (rises : Bool) (i : Nat) : List Nat :=
  if start < i ∧ belongs colors rises i = true ∧ belongs colors rises (i - 1) = false then [i - 1] else []

theorem bridge_of_apart {rises : Bool} (h : belongs colors rises i = false) : bridge colors start rises i = [] := by
  apply if_neg
  rw [h]
  exact fun entered => Bool.false_ne_true entered.2.1

theorem bridge_succ {rises : Bool} (first : start ≤ i) (h : belongs colors rises i = false) :
    bridge colors start rises (i + 1) = [i].filter (isDrawn colors rises) := by
  rw [bridge, Nat.add_sub_cancel, List.filter_singleton, isDrawn, h, Bool.false_or]
  cases belongs colors rises (i + 1) with
  | true => exact if_pos ⟨by omega, rfl, rfl⟩
  | false => exact if_neg fun entered => Bool.false_ne_true entered.2.1

theorem bridge_of_stayed {rises : Bool} (h : i = start ∨ belongs colors rises (i - 1) = true) :
    bridge colors start rises i = [] := by
  apply if_neg
  rintro ⟨later, -, other⟩
  rcases h with same | stayed
  · omega
  · rw [stayed] at other
    cases other

/-- What the rest of a sweep adds to a trace: the points of its bars, and before them that of the bar before if the
trace is entered here. -/
theorem trace_points {count : Nat} {steps : List (Bool × List (Point α))} (side : Bool) (first : start ≤ i)
    (last : i + count = colors.length) (h : sweep (traceStep? times direction colors start) i count = .ok steps) :
    List.Forall₂ (IsPointAt times direction)
      (bridge colors start side i ++ (List.range' i count).filter (isDrawn colors side)) (traceOf side steps) := by
  induction count generalizing i steps with
  | zero =>
    obtain rfl := Except.ok.inj h
    rw [bridge_of_apart (belongs_of_length_le (by omega))]
    exact List.Forall₂.nil
  | succ count ih =>
    obtain ⟨step, here, h⟩ := bind_ok h
    obtain ⟨rest, tail, h⟩ := bind_ok h
    obtain rfl := pure_ok h
    have points := ih (by omega : start ≤ i + 1) (by omega) tail
    obtain ⟨on, p, point, added⟩ := traceStep?_ok here
    rw [List.range'_succ]
    by_cases mine : step.1 = side
    · rw [mine] at on added
      have on := belongs_iff.mpr on
      rw [bridge_of_stayed (Or.inr (by rwa [Nat.add_sub_cancel])), List.nil_append] at points
      rw [List.filter_cons, isDrawn, on, Bool.true_or, if_pos rfl, traceOf_cons_same mine]
      rcases added with ⟨stayed, alone⟩ | ⟨later, other, q, before, both⟩
      · have stayed : i = start ∨ belongs colors side (i - 1) = true := by
          rcases stayed with same | before
          · exact Or.inl (by omega)
          · rcases Nat.eq_zero_or_pos i with rfl | pos
            · exact Or.inl (by omega)
            · right
              rwa [belongs_iff, Int.natCast_pred_of_pos pos]
        rw [bridge_of_stayed stayed, alone]
        exact List.Forall₂.cons (isPointAt_of_pointAt? point) points
      · obtain ⟨k, rfl⟩ : ∃ k, i = k + 1 := ⟨i - 1, by omega⟩
        have place : ((k + 1 : Nat) : Int) - 1 = k := by omega
        rw [place] at other before
        have apart := belongs_of_onTrace other (Bool.not_ne_self side)
        rw [bridge, Nat.add_sub_cancel, if_pos ⟨by omega, on, apart⟩, both]
        exact .cons (isPointAt_of_pointAt? before) (.cons (isPointAt_of_pointAt? point) points)
    · have apart := belongs_of_onTrace on mine
      rw [bridge_succ first apart, ← List.filter_append, List.singleton_append] at points
      rwa [bridge_of_apart apart, List.nil_append, traceOf_cons_other mine]

/-! ### The traces -/

/-- What a direction is split into from bar `start` on. -/
structure Traces.IsExact (times : List Int) (direction : List α) (colors : List DirectionColor) (start : Nat)
    (traces : Traces α) : Prop where
  rising : List.Forall₂ (IsPointAt times direction) (traceBars colors start true) traces.rising
  falling : List.Forall₂ (IsPointAt times direction) (traceBars colors start false) traces.falling
  ordered : traces.rising.Pairwise (·.time < ·.time) ∧ traces.falling.Pairwise (·.time < ·.time)
  covered : ∀ i p, start ≤ i → IsPointAt times direction i p → p ∈ traces.rising ∨ p ∈ traces.falling
  shared : ∀ i p, start ≤ i → IsPointAt times direction i p →
    (p ∈ traces.rising ∧ p ∈ traces.falling ↔
      ∃ color next, colors[i]? = some color ∧ colors[i + 1]? = some next ∧ (color = .red ↔ next ≠ .red))

theorem IsPointAt.unique {p q : Point α} (h : IsPointAt times direction i p) (h' : IsPointAt times direction i q) :
    p = q := by
  have time := Option.some.inj (h.time.symm.trans h'.time)
  have value := Option.some.inj (h.value.symm.trans h'.value)
  cases p
  cases q
  simp_all

theorem mem_traceBars {rises : Bool} : i ∈ traceBars colors start rises ↔
    start ≤ i ∧ i < colors.length ∧ isDrawn colors rises i = true := by
  rw [traceBars, List.mem_filter, List.mem_range'_1, and_assoc]
  refine and_congr_right fun first => and_congr_left fun _ => ?_
  omega

/-- A trace has the point of a bar exactly if the bar is one of its bars. -/
theorem mem_iff_mem_traceBars {rises : Bool} {points : List (Point α)} (increasing : times.Pairwise (· < ·))
    (drawn : List.Forall₂ (IsPointAt times direction) (traceBars colors start rises) points) {p : Point α}
    (h : IsPointAt times direction i p) : p ∈ points ↔ i ∈ traceBars colors start rises := by
  have nodup : times.Nodup := increasing.imp fun below => Int.ne_of_lt below
  have bars : Relator.LeftUnique (IsPointAt times direction) := by
    intro j p k here there
    obtain ⟨inside, -⟩ := List.getElem?_eq_some_iff.mp here.time
    exact (List.getElem?_inj inside nodup).mp (here.time.trans there.time.symm)
  have points : Relator.RightUnique (IsPointAt times direction) := fun _ _ _ here there => here.unique there
  exact (List.rel_mem ⟨bars, points⟩ h drawn).symm

theorem exists_isDrawn (inside : i < colors.length) : isDrawn colors true i = true ∨ isDrawn colors false i = true := by
  rw [isDrawn, isDrawn, belongs_false inside]
  cases belongs colors true i with
  | true => exact Or.inl rfl
  | false => exact Or.inr rfl

theorem isDrawn_both_iff (inside : i < colors.length) :
    isDrawn colors true i = true ∧ isDrawn colors false i = true ↔
      ∃ color next, colors[i]? = some color ∧ colors[i + 1]? = some next ∧ (color = .red ↔ next ≠ .red) := by
  by_cases last : i + 1 < colors.length
  · simp only [isDrawn, belongs, List.getElem?_eq_getElem inside, List.getElem?_eq_getElem last, Option.any_some,
      Option.some.injEq, exists_and_left, exists_eq_left']
    by_cases here : colors[i] = .red <;> by_cases there : colors[i + 1] = .red <;> simp [here, there]
  · have beyond := Nat.not_lt.mp last
    rw [isDrawn, isDrawn, belongs_of_length_le beyond, belongs_of_length_le beyond,
      belongs_false inside]
    refine iff_of_false ?_ ?_
    · cases belongs colors true i <;> simp
    · rintro ⟨color, next, -, found, -⟩
      rw [List.getElem?_eq_none beyond] at found
      cases found

theorem splitDirection_exact (time : times.length = n) (value : direction.length = n) (color : colors.length = n)
    (first : start ≤ n) (increasing : times.Pairwise (· < ·)) :
    ∃ traces, splitDirection times direction colors start = .ok traces ∧
      traces.IsExact times direction colors start := by
  have nonneg : (0 : Int) ≤ start := Int.natCast_nonneg start
  obtain ⟨traces, split⟩ := exists_splitDirection time value color nonneg
  obtain ⟨risingTimes, fallingTimes⟩ := splitDirection_sublist nonneg split
  refine ⟨traces, split, ?_⟩
  obtain ⟨steps, swept, h⟩ := bind_ok split
  obtain rfl := pure_ok h
  have points (side : Bool) :
      List.Forall₂ (IsPointAt times direction) (traceBars colors start side) (traceOf side steps) := by
    have stop : ((direction.length : Int) - start).toNat = colors.length - start := by omega
    rw [sweepUpTo, stop] at swept
    have all := trace_points side (Nat.le_refl start) (by omega) swept
    rwa [bridge_of_stayed (Or.inl rfl), List.nil_append] at all
  have rising := points true
  have falling := points false
  simp only [traceOf, beq_true, beq_false] at rising falling
  have inside {i : Nat} {p : Point α} (h : IsPointAt times direction i p) : i < colors.length := by
    obtain ⟨inside, -⟩ := List.getElem?_eq_some_iff.mp h.time
    omega
  refine ⟨rising, falling, ⟨?_, ?_⟩, ?_, ?_⟩
  · exact List.pairwise_map.mp (increasing.sublist risingTimes)
  · exact List.pairwise_map.mp (increasing.sublist fallingTimes)
  · intro i p later h
    rw [mem_iff_mem_traceBars increasing rising h, mem_iff_mem_traceBars increasing falling h, mem_traceBars,
      mem_traceBars]
    exact (exists_isDrawn (inside h)).imp (⟨later, inside h, ·⟩) (⟨later, inside h, ·⟩)
  · intro i p later h
    rw [mem_iff_mem_traceBars increasing rising h, mem_iff_mem_traceBars increasing falling h, mem_traceBars,
      mem_traceBars, ← isDrawn_both_iff (inside h)]
    simp [later, inside h]

/-- Runs of one bar, a turn right after the start, and a bar that keeps level. -/
def zigzag : List DirectionColor := [.red, .green, .red, .red, .yellow]

theorem splitDirection_exact_of_zigzag :
    ∃ traces, splitDirection [1, 2, 3, 5, 8] ["a", "b", "c", "d", "e"] zigzag (1 : Nat) = .ok traces ∧
      traces.IsExact [1, 2, 3, 5, 8] ["a", "b", "c", "d", "e"] zigzag 1 :=
  splitDirection_exact rfl rfl rfl (by decide) (by decide)

end ChartOverlay
