import ChartOverlay.Proofs.Causal
import ChartOverlay.Proofs.DoubleOrder

/-!
# Where a signal line stands

An exponential average of doubles that is once undefined stays so (`isBlock_states`). Hence the defined entries of
one form a block, as do those of the difference of two, and leaving out the undefined entries leaves out a head and
a tail. Behind a head of the same length the average of the others stands where it belongs.
-/

namespace ChartOverlay

open Arith

/-! ### Blocks -/

section Blocks
variable {α β γ : Type} {series : List (Option α)} {first stop : Nat}

/-- The defined entries of a series are those from `first` up to `stop`. -/
def IsBlock (first stop : Nat) (series : List (Option α)) : Prop :=
  ∀ i, (∃ x, series[i]? = some (some x)) ↔ first ≤ i ∧ i < stop

theorem isBlock_replicate (first n : Nat) : IsBlock first 0 (List.replicate n (none : Option α)) := by
  intro i
  refine iff_of_false ?_ (by omega)
  rintro ⟨x, found⟩
  rw [List.getElem?_replicate] at found
  split at found <;> cases found

/-- A series that is defined from an entry on to its end. -/
theorem isBlock_of_entries {entry : Nat → α}
    (entries : ∀ i < series.length, series[i]? = some (if first ≤ i then some (entry i) else none)) :
    IsBlock first series.length series := by
  intro i
  rcases Nat.lt_or_ge i series.length with inside | beyond
  · rw [entries i inside]
    by_cases whole : first ≤ i
    · rw [if_pos whole]
      exact iff_of_true ⟨_, rfl⟩ ⟨whole, inside⟩
    · rw [if_neg whole]
      exact iff_of_false nofun (by omega)
  · rw [List.getElem?_eq_none beyond]
    exact iff_of_false nofun (by omega)

theorem IsBlock.append (h : IsBlock first stop series) (n : Nat) :
    IsBlock (n + first) (n + stop) (List.replicate n none ++ series) := by
  intro i
  rcases Nat.lt_or_ge i n with early | late
  · rw [List.getElem?_append_left (by rwa [List.length_replicate]), List.getElem?_replicate, if_pos early]
    exact iff_of_false (by simp) (by omega)
  · rw [List.getElem?_append_right (by rwa [List.length_replicate]), List.length_replicate, h]
    omega

theorem IsBlock.cons (h : IsBlock 0 stop series) (x : α) : IsBlock 0 (stop + 1) (some x :: series) := by
  intro i
  cases i with
  | zero => exact iff_of_true ⟨x, rfl⟩ (by omega)
  | succ i =>
    rw [List.getElem?_cons_succ, h]
    omega

theorem IsBlock.tail {entry : Option α} (h : IsBlock first stop (entry :: series)) :
    IsBlock (first - 1) (stop - 1) series := by
  intro i
  rw [← List.getElem?_cons_succ, h]
  omega

theorem IsBlock.zipDefined {first' stop' : Nat} {other : List (Option β)} (h : IsBlock first stop series)
    (h' : IsBlock first' stop' other) (f : α → β → γ) :
    IsBlock (max first first') (min stop stop') (zipDefined f series other) := by
  intro i
  have both : (∃ z, (ChartOverlay.zipDefined f series other)[i]? = some (some z)) ↔
      (∃ x, series[i]? = some (some x)) ∧ ∃ y, other[i]? = some (some y) := by
    rw [ChartOverlay.zipDefined, List.getElem?_zipWith]
    rcases series[i]? with _ | _ | x <;> rcases other[i]? with _ | _ | y <;> simp
  rw [both, h, h']
  omega

theorem IsBlock.stop_le (h : IsBlock first stop series) (filled : first < stop) : stop ≤ series.length := by
  obtain ⟨x, found⟩ := (h (stop - 1)).mpr (by omega)
  obtain ⟨inside, -⟩ := List.getElem?_eq_some_iff.mp found
  omega

theorem IsBlock.eq_replicate (h : IsBlock first stop series) (empty : stop ≤ first) :
    series = List.replicate series.length none := by
  refine List.eq_replicate_iff.mpr ⟨rfl, ?_⟩
  intro entry member
  obtain ⟨i, found⟩ := List.mem_iff_getElem?.mp member
  cases entry with
  | none => rfl
  | some x =>
    have inside := (h i).mp ⟨x, found⟩
    omega

theorem IsBlock.exists_eq (h : IsBlock first stop series) (filled : first < stop) :
    ∃ (block : List α) (tail : Nat),
      series = List.replicate first none ++ (block.map some ++ List.replicate tail none) ∧
        first + block.length = stop := by
  induction series generalizing first stop with
  | nil =>
    have none := h.stop_le filled
    rw [List.length_nil] at none
    omega
  | cons entry series ih =>
    cases entry with
    | none =>
      have later : first ≠ 0 := by
        rintro rfl
        obtain ⟨x, found⟩ := (h 0).mpr ⟨Nat.le_refl 0, filled⟩
        cases found
      obtain ⟨first, rfl⟩ := Nat.exists_eq_succ_of_ne_zero later
      obtain ⟨block, tail, rfl, size⟩ := ih h.tail (by omega)
      exact ⟨block, tail, rfl, by omega⟩
    | some x =>
      obtain ⟨rfl, -⟩ : first = 0 ∧ 0 < stop := by
        have inside := (h 0).mp ⟨x, rfl⟩
        omega
      by_cases more : 1 < stop
      · obtain ⟨block, tail, rfl, size⟩ := ih h.tail (by omega)
        exact ⟨x :: block, tail, rfl, by rw [List.length_cons]; omega⟩
      · have rest := h.tail.eq_replicate (by omega)
        exact ⟨[x], series.length, congrArg (some x :: ·) rest, by rw [List.length_singleton]; omega⟩

end Blocks

/-! ### Averages -/

section Averages
variable {α : Type} [Arith α]

omit [Arith α] in
theorem length_states {β : Type} (step : α → β → α) (seed : α) (xs : List β) :
    (states step seed xs).length = xs.length + 1 := by
  induction xs generalizing seed with
  | nil => rfl
  | cons x xs ih => rw [states, List.length_cons, List.length_cons, ih]

theorem length_ema (values : List α) (period : Int) : (ema values period).length = values.length := by
  unfold ema
  split
  · rw [List.length_append, List.length_replicate, List.length_map, length_states, List.length_drop]
    omega
  · exact List.length_replicate

/-- Nothing but undefined values follows an undefined one. -/
theorem isNaN_states {β : Type} {step : α → β → α} (sticky : ∀ last x, isNaN last = true → isNaN (step last x) = true)
    {seed : α} (undefined : isNaN seed = true) (xs : List β) : ∀ x ∈ states step seed xs, isNaN x = true := by
  induction xs generalizing seed with
  | nil =>
    intro x member
    rwa [List.mem_singleton.mp member]
  | cons y xs ih => exact List.forall_mem_cons.mpr ⟨undefined, ih (sticky seed y undefined)⟩

theorem isBlock_of_isNaN {β : Type} {step : α → β → α}
    (sticky : ∀ last x, isNaN last = true → isNaN (step last x) = true) {seed : α} (first : isNaN seed = true)
    (xs : List β) : IsBlock 0 0 ((states step seed xs).map defined) := by
  have nothing : (states step seed xs).map defined = List.replicate (xs.length + 1) none := by
    refine List.eq_replicate_iff.mpr ⟨by rw [List.length_map, length_states], ?_⟩
    intro entry member
    obtain ⟨x, state, rfl⟩ := List.mem_map.mp member
    exact if_pos (isNaN_states sticky first xs x state)
  rw [nothing]
  exact isBlock_replicate 0 _

theorem isBlock_states {β : Type} {step : α → β → α}
    (sticky : ∀ last x, isNaN last = true → isNaN (step last x) = true) (seed : α) (xs : List β) :
    ∃ stop, IsBlock 0 stop ((states step seed xs).map defined) := by
  induction xs generalizing seed with
  | nil =>
    cases first : isNaN seed with
    | true => exact ⟨0, isBlock_of_isNaN sticky first []⟩
    | false =>
      rw [states, List.map_singleton, defined, first]
      exact ⟨1, (isBlock_replicate 0 0).cons seed⟩
  | cons y xs ih =>
    cases first : isNaN seed with
    | true => exact ⟨0, isBlock_of_isNaN sticky first (y :: xs)⟩
    | false =>
      obtain ⟨stop, block⟩ := ih (step seed y)
      rw [states, List.map_cons, defined, first]
      exact ⟨stop + 1, block.cons seed⟩

/-- An average is defined from its first whole window up to its first undefined value. -/
theorem isBlock_ema (sticky : ∀ x y : α, isNaN y = true → isNaN (x + y) = true) (values : List α) (period : Int) :
    ∃ stop, IsBlock (period.toNat - 1) stop (ema values period) := by
  unfold ema
  split
  · obtain ⟨stop, block⟩ := isBlock_states (fun last x => sticky _ last) (mean (values.take period.toNat))
      (values.drop period.toNat)
    exact ⟨_, block.append (period.toNat - 1)⟩
  · exact ⟨0, isBlock_replicate _ _⟩

/-! ### Signals -/

theorem signalLine_replicate (n : Nat) (period : Int) :
    signalLine (List.replicate n (none : Option α)) period = List.replicate n none := by
  have nothing : ema ([] : List α) period = [] := List.eq_nil_of_length_eq_zero (length_ema [] period)
  simp [signalLine, nothing]

section Alignment
variable {first stop tail : Nat} {block : List α} {series : List (Option α)}

omit [Arith α] in
theorem filterMap_eq (first tail : Nat) (block : List α) :
    (List.replicate first none ++ (block.map some ++ List.replicate tail none)).filterMap id = block := by
  simp

theorem signalLine_eq (filled : block ≠ []) (period : Int) :
    signalLine (List.replicate first none ++ (block.map some ++ List.replicate tail none)) period =
      List.replicate first none ++ ema block period := by
  obtain ⟨x, xs, rfl⟩ := List.exists_cons_of_ne_nil filled
  have head : ((List.replicate first none ++ ((x :: xs).map some ++ List.replicate tail none)).takeWhile
      Option.isNone).length = first := by
    rw [List.takeWhile_append_of_pos (by simp), List.map_cons, List.cons_append, List.takeWhile_cons_of_neg (by simp),
      List.append_nil, List.length_replicate]
  unfold signalLine
  dsimp only
  rw [head, filterMap_eq, List.take_of_length_le]
  simp only [List.length_append, List.length_replicate, List.length_map, length_ema]
  omega

/-- The signal line of a block ends with it; that of a series without entries is as long as the series. -/
theorem length_signalLine (h : IsBlock first stop series) (period : Int) :
    (signalLine series period).length = if first < stop then stop else series.length := by
  split
  · rename_i filled
    obtain ⟨block, tail, rfl, size⟩ := h.exists_eq filled
    rw [signalLine_eq (List.ne_nil_of_length_pos (by omega)), List.length_append, List.length_replicate, length_ema,
      size]
  · rename_i empty
    rw [h.eq_replicate (by omega), signalLine_replicate]

/-- A signal that stands where the entries of its series do, which are those from `first` up to `stop`. -/
structure IsAligned (first stop : Nat) (period : Int) (series signal : List (Option α)) : Prop where
  block : IsBlock first stop series
  kept : ∀ k, first + k < stop → series[first + k]? = some (series.filterMap id)[k]?
  short : signal.length ≤ series.length
  head : ∀ (i : Nat) x, i < first → signal[i]? ≠ some (some x)
  entries : ∀ k, first + k < stop →
    ∃ entry, (ema (series.filterMap id) period)[k]? = some entry ∧ signal[first + k]? = some entry
  late : ∀ (i : Nat) x, signal[i]? = some (some x) → first + period ≤ i + 1

theorem isAligned_signalLine (sticky : ∀ x y : α, isNaN y = true → isNaN (x + y) = true)
    (h : IsBlock first stop series) (period : Int) : IsAligned first stop period series (signalLine series period) := by
  by_cases filled : first < stop
  · obtain ⟨block, tail, rfl, size⟩ := h.exists_eq filled
    have signal (i : Nat) : (signalLine (List.replicate first none ++ (block.map some ++ List.replicate tail none))
        period)[i]? = if i < first then some none else (ema block period)[i - first]? := by
      rw [signalLine_eq (List.ne_nil_of_length_pos (by omega)), List.getElem?_append, List.length_replicate]
      split
      · rename_i early
        rw [List.getElem?_replicate, if_pos early]
      · rfl
    refine ⟨h, ?_, ?_, ?_, ?_, ?_⟩
    · intro k inside
      rw [filterMap_eq, List.getElem?_append_right (by simp), List.length_replicate, Nat.add_sub_cancel_left,
        List.getElem?_append_left (by rw [List.length_map]; omega), List.getElem?_map,
        List.getElem?_eq_getElem (by omega), Option.map_some]
    · rw [length_signalLine h, if_pos filled]
      exact h.stop_le filled
    · intro i x early
      rw [signal, if_pos early]
      nofun
    · intro k inside
      rw [filterMap_eq, signal, if_neg (by omega), Nat.add_sub_cancel_left,
        List.getElem?_eq_getElem (by rw [length_ema]; omega)]
      exact ⟨_, rfl, rfl⟩
    · intro i x found
      rw [signal] at found
      split at found
      · cases found
      · obtain ⟨last, averages⟩ := isBlock_ema sticky block period
        have whole := (averages (i - first)).mp ⟨x, found⟩
        omega
  · have nothing := h.eq_replicate (by omega)
    have undefined (i : Nat) (x : α) : (signalLine series period)[i]? ≠ some (some x) := by
      rw [nothing, signalLine_replicate, List.getElem?_replicate]
      split <;> nofun
    refine ⟨h, ?_, ?_, ?_, ?_, ?_⟩
    · intro k inside
      omega
    · rw [length_signalLine h, if_neg filled]
    · exact fun i x _ => undefined i x
    · intro k inside
      omega
    · exact fun i x found => absurd found (undefined i x)

end Alignment

/-! ### Convergence -/

theorem length_macd (values : List α) (fast slow signal : Int) :
    (macd values fast slow signal).1.length = values.length := by
  rw [macd, zipDefined, List.length_zipWith, length_ema, length_ema, Nat.min_self]

theorem isBlock_macd (sticky : ∀ x y : α, isNaN y = true → isNaN (x + y) = true) (values : List α)
    (fast slow signal : Int) :
    ∃ stop, IsBlock (max fast slow - 1).toNat stop (macd values fast slow signal).1 := by
  obtain ⟨stop, quick⟩ := isBlock_ema sticky values fast
  obtain ⟨stop', late⟩ := isBlock_ema sticky values slow
  have place : (max fast slow - 1).toNat = max (fast.toNat - 1) (slow.toNat - 1) := by omega
  rw [place]
  exact ⟨_, quick.zipDefined late _⟩

/-- The signal of the values up to a bar says of the bar what that of all values does, even that there is nothing. -/
theorem macd_take (sticky : ∀ x y : α, isNaN y = true → isNaN (x + y) = true) (values : List α)
    (fast slow signal : Int) (i : Nat) :
    (macd (values.take (i + 1)) fast slow signal).2[i]? = (macd values fast slow signal).2[i]? := by
  rcases Nat.lt_or_ge i values.length with inside | beyond
  · obtain ⟨series, signals⟩ := @macd_causal α _ fast slow signal
    have extended := List.take_prefix (i + 1) values
    have size : (macd (values.take (i + 1)) fast slow signal).1.length = i + 1 := by
      rw [length_macd, List.length_take]
      omega
    rcases Nat.lt_or_ge i (macd (values.take (i + 1)) fast slow signal).2.length with present | absent
    · exact getElem?_eq_of_lt (signals extended) present
    · -- the signal ends before the bar only if the block does, and the block of all values ends there too
      obtain ⟨stop, front⟩ := isBlock_macd sticky (values.take (i + 1)) fast slow signal
      obtain ⟨stop', whole⟩ := isBlock_macd sticky values fast slow signal
      have same {j : Nat} (early : j < i + 1) : (macd (values.take (i + 1)) fast slow signal).1[j]? =
          (macd values fast slow signal).1[j]? := getElem?_eq_of_lt (series extended) (early.trans_eq size.symm)
      have ended := length_signalLine front signal
      have ended' := length_signalLine whole signal
      change (macd (values.take (i + 1)) fast slow signal).2.length = _ at ended
      change (macd values fast slow signal).2.length = _ at ended'
      rw [size] at ended
      split at ended
      · rename_i filled
        have first := (front _).mpr ⟨Nat.le_refl _, filled⟩
        rw [same (by omega), whole] at first
        have last := (front i).not.mpr (by omega)
        rw [same (by omega), whole] at last
        rw [if_pos first.2] at ended'
        rw [List.getElem?_eq_none absent, List.getElem?_eq_none (by omega)]
      · omega
  · rw [List.take_of_length_le (by omega)]

end Averages

/-- The entries of the difference of two averages of doubles have no gap, the signal stands where they do, and both
say of a bar what the values up to the bar say. -/
theorem macd_aligned (values : List Float) (fast slow signal : Int) :
    (macd values fast slow signal).1.length = values.length ∧
      (∃ stop, IsAligned (max fast slow - 1).toNat stop signal (macd values fast slow signal).1
        (macd values fast slow signal).2) ∧
      ∀ (i : Nat) (more : List Float), more.take (i + 1) = values.take (i + 1) →
        (macd more fast slow signal).2[i]? = (macd values fast slow signal).2[i]? := by
  have sticky : ∀ x y : Float, isNaN y = true → isNaN (x + y) = true := fun _ _ => Double.isNaN_add
  refine ⟨length_macd values fast slow signal, ?_, ?_⟩
  · obtain ⟨stop, block⟩ := isBlock_macd sticky values fast slow signal
    exact ⟨stop, isAligned_signalLine sticky block signal⟩
  · intro i more same
    rw [← macd_take sticky more, same, macd_take sticky values]

example : macd [1.0, 2.0, 4.0, 0.0 / 0.0, 5.0] 1 2 2 =
    ([none, some 0.5, some 0.8333333333333335, none, none], [none, none, some 0.6666666666666667]) := by
  decide +kernel

/-- Closes of which one is undefined. -/
def gappedCloses : List Float := [1.0, 2.0, 4.0, 0.0 / 0.0, 5.0]

theorem macd_aligned_of_gappedCloses :
    (∃ stop, IsAligned 1 stop 2 (macd gappedCloses 1 2 2).1 (macd gappedCloses 1 2 2).2) ∧
      (macd [1.0, 2.0, 4.0, 8.0] 1 2 2).2[2]? = (macd gappedCloses 1 2 2).2[2]? :=
  ⟨(macd_aligned gappedCloses 1 2 2).2.1, (macd_aligned gappedCloses 1 2 2).2.2 2 [1.0, 2.0, 4.0, 8.0] rfl⟩

end ChartOverlay
