import ChartOverlay.Engine.Training
import ChartOverlay.Proofs.Partial
import ChartOverlay.Proofs.Training

/-!
# When rescaling fails

Rescaling maps each value from its own recent range into that of the closes. The source range is undefined at
both of its ends or at none and then maps to the middle; what fails is a range of closes that is undefined. The
windows of the closes reach from bar one to the last: `rescale_ok` and `rescale_error`.
-/

namespace ChartOverlay

open Arith

variable {α : Type} [Arith α]

/-! ### Windows -/

omit [Arith α] in
theorem mem_trailing {n i : Nat} {xs : List α} {x : α} : x ∈ trailing n xs i ↔
    ∃ k, i + 1 - n ≤ k ∧ k ≤ i ∧ xs[k]? = some x := by
  unfold trailing
  rw [List.mem_iff_getElem?]
  simp only [List.getElem?_drop, List.getElem?_take]
  constructor
  · rintro ⟨j, found⟩
    split at found
    · exact ⟨i + 1 - n + j, by omega, by omega, found⟩
    · cases found
  · rintro ⟨k, first, last, found⟩
    refine ⟨k - (i + 1 - n), ?_⟩
    have place : i + 1 - n + (k - (i + 1 - n)) = k := by omega
    rw [place, if_pos (by omega), found]

omit [Arith α] in
theorem length_trailing {n i : Nat} {xs : List α} (whole : n ≤ i + 1) (inside : i < xs.length) :
    (trailing n xs i).length = n := by
  rw [trailing, List.length_drop, List.length_take]
  omega

omit [Arith α] in
theorem trailing_map {β : Type} (f : α → β) (n : Nat) (xs : List α) (i : Nat) :
    trailing n (xs.map f) i = (trailing n xs i).map f := by
  rw [trailing, trailing, ← List.map_take, ← List.map_drop]

omit [Arith α] in
theorem trailing_one {i : Nat} {xs : List α} {x : α} (here : xs[i]? = some x) : trailing 1 xs i = [x] := by
  have inside : i < xs.length := (List.getElem?_eq_some_iff.mp here).1
  have early : (xs.take i).length = i := List.length_take_of_le (by omega)
  rw [trailing, Nat.add_sub_cancel, List.take_add_one, here, List.drop_left' early]
  rfl

omit [Arith α] in
/-- A window does not depend on where the values begin. -/
theorem trailing_drop {n i : Nat} (xs : List α) (k : Nat) (whole : n ≤ i + 1) :
    trailing n (xs.drop k) i = trailing n xs (k + i) := by
  have place : k + (i + 1 - n) = k + i + 1 - n := by omega
  have size : i + 1 - (i + 1 - n) = k + i + 1 - (k + i + 1 - n) := by omega
  rw [trailing, trailing, List.drop_take, List.drop_take, List.drop_drop, place, size]

omit [Arith α] in
theorem getElem?_rolling {β : Type} {period : Int} {i : Nat} {xs : List α} (f : List α → Option β)
    (inside : i < xs.length) : (rolling period f xs)[i]? =
      some (if 1 ≤ period ∧ period ≤ i + 1 then f (trailing period.toNat xs i) else none) := by
  rw [rolling, List.getElem?_map, List.getElem?_range inside, Option.map_some]

omit [Arith α] in
theorem entry?_rolling {β : Type} {period i : Int} {xs : List α} (f : List α → Option β) (valid : 1 ≤ period)
    (whole : period ≤ i + 1) (inside : i < xs.length) :
    entry? (rolling period f xs) i = .ok (f (trailing period.toNat xs i.toNat)) := by
  refine (entry?_ok_iff (by omega)).mpr ?_
  rw [getElem?_rolling f (by omega), if_pos ⟨valid, by omega⟩]

/-- The extreme of values is not a number exactly if one of them is not. -/
theorem isNaN_extremeFrom {beats : α → α → Bool} (undefined : ∀ x y : α, beats x y = true → isNaN y = false)
    (best : α) (xs : List α) :
    isNaN (extremeFrom beats best xs) = true ↔ isNaN best = true ∨ ∃ x ∈ xs, isNaN x = true := by
  induction xs generalizing best with
  | nil => simp [extremeFrom]
  | cons x xs ih =>
    rw [extremeFrom]
    by_cases broken : isNaN best = true
    · simp [broken]
    · rw [if_neg broken, ih, List.exists_mem_cons_iff]
      by_cases beaten : beats best x = true
      · simp [beaten, broken, undefined best x beaten]
      · simp [beaten, broken]

theorem extreme?_eq_none_iff {beats : α → α → Bool} (undefined : ∀ x y : α, beats x y = true → isNaN y = false)
    {window : List α} (filled : window ≠ []) :
    extreme? beats window = none ↔ ∃ x ∈ window, isNaN x = true := by
  cases window with
  | nil => exact absurd rfl filled
  | cons x xs =>
    rw [List.exists_mem_cons_iff, ← isNaN_extremeFrom undefined, extreme?, defined]
    split <;> simp_all

/-! ### Ranges -/

/-- Two ends of a range that are undefined together. -/
def Together (hi lo : Option α) : Prop := hi = none ↔ lo = none

theorem mapRange_ok (law : Trainable α) (value : α) {hi lo : Option α} (source : Together hi lo)
    (targetLo targetHi : α) : ∃ y, mapRange (some value) hi lo (some targetLo) (some targetHi) = .ok y := by
  unfold mapRange
  by_cases flat : same hi lo = true
  · rw [if_pos flat]
    exact ⟨_, rfl⟩
  · rw [if_neg flat]
    cases hi with
    | none =>
      obtain rfl := source.mp rfl
      exact absurd rfl flat
    | some hi =>
      cases lo with
      | none => cases source.mpr rfl
      | some lo =>
        have apart : isZero (hi - lo) = false := by
          rw [← Bool.not_eq_true]
          exact fun zero => flat (law.distinct hi lo zero)
        refine ⟨(targetHi - targetLo) * (value - lo) / (hi - lo) + targetLo, ?_⟩
        simp only [sub?, add?, ok_bind, div?, apart]
        rfl

/-- Only an undefined target makes a mapping fail. -/
theorem mapRange_error (value hi lo : Option α) :
    ∃ op, mapRange value hi lo none none = .error (.undefinedOperand op false false) := by
  unfold mapRange
  by_cases flat : same hi lo = true
  · rw [if_pos flat]
    exact ⟨.plus, rfl⟩
  · rw [if_neg flat]
    exact ⟨.minus, rfl⟩

/-! ### Curves -/

variable {raw closes : List α} {window i : Int}

/-- Whether a close that stands among the last `window` ones at a bar is not a number. -/
def BrokenAt (closes : List α) (window i : Int) : Prop :=
  ∃ x ∈ trailing window.toNat closes i.toNat, isNaN x = true

theorem lt_undefined (undefined : ∀ x y : α, isNaN x = true ∨ isNaN y = true → lt x y = false) (x y : α)
    (h : lt x y = true) : isNaN y = false := by
  rw [← Bool.not_eq_true]
  intro broken
  rw [undefined x y (Or.inr broken)] at h
  cases h

theorem gt_undefined (undefined : ∀ x y : α, isNaN x = true ∨ isNaN y = true → lt x y = false) (x y : α)
    (h : gt x y = true) : isNaN y = false := by
  rw [← Bool.not_eq_true]
  intro broken
  rw [gt, undefined y x (Or.inl broken)] at h
  cases h

omit [Arith α] in
theorem trailing_ne_nil {n i : Nat} {xs : List α} (valid : 1 ≤ n) (inside : i < xs.length) :
    trailing n xs i ≠ [] := by
  have last : xs[i] ∈ trailing n xs i :=
    mem_trailing.mpr ⟨i, by omega, Nat.le_refl i, List.getElem?_eq_getElem inside⟩
  exact List.ne_nil_of_mem last

/-- A bar is rescaled unless its window of closes is broken. -/
theorem rescaleAt?_cases (law : Trainable α) (same : raw.length = closes.length) (valid : 1 ≤ window)
    (first : window ≤ i) (last : i < closes.length) :
    (¬BrokenAt closes window i ∧ ∃ y, rescaleAt? raw (highest raw window) (lowest raw window)
        (highest closes window) (lowest closes window) i = .ok y) ∨
      (BrokenAt closes window i ∧ ∃ op, rescaleAt? raw (highest raw window) (lowest raw window)
        (highest closes window) (lowest closes window) i = .error (.undefinedOperand op false false)) := by
  obtain ⟨value, read⟩ := entry?_ok (by omega) (by omega : i < raw.length)
  have rawEntry (f : List α → Option α) := entry?_rolling f valid (by omega) (by omega : i < raw.length)
  have closeEntry (f : List α → Option α) := entry?_rolling f valid (by omega : window ≤ i + 1) last
  have filled : trailing window.toNat raw i.toNat ≠ [] := trailing_ne_nil (by omega) (by omega)
  have filled' : trailing window.toNat closes i.toNat ≠ [] := trailing_ne_nil (by omega) (by omega)
  have hi := extreme?_eq_none_iff (gt_undefined law.undefined) filled'
  have lo := extreme?_eq_none_iff (lt_undefined law.undefined) filled'
  -- the greatest and the least of a window are undefined together, so the source range never is at one end
  have source : Together (extreme? gt (trailing window.toNat raw i.toNat))
      (extreme? lt (trailing window.toNat raw i.toNat)) :=
    (extreme?_eq_none_iff (gt_undefined law.undefined) filled).trans
      (extreme?_eq_none_iff (lt_undefined law.undefined) filled).symm
  simp only [rescaleAt?, highest, lowest, read, rawEntry, closeEntry, ok_bind]
  by_cases broken : BrokenAt closes window i
  · refine Or.inr ⟨broken, ?_⟩
    rw [hi.mpr broken, lo.mpr broken]
    exact mapRange_error _ _ _
  · refine Or.inl ⟨broken, ?_⟩
    obtain ⟨top, above⟩ := Option.ne_none_iff_exists'.mp fun none => broken (hi.mp none)
    obtain ⟨bottom, below⟩ := Option.ne_none_iff_exists'.mp fun none => broken (lo.mp none)
    rw [above, below]
    exact mapRange_ok law _ source _ _

omit [Arith α] in
/-- The windows from the first whole one on cover all bars but the first. -/
theorem exists_window {closes : List α} {k : Nat} {x : α} (valid : 1 ≤ window) (enough : window < closes.length)
    (later : 1 ≤ k) (found : closes[k]? = some x) :
    ∃ i, window ≤ i ∧ i < closes.length ∧ x ∈ trailing window.toNat closes i.toNat := by
  have inside : k < closes.length := (List.getElem?_eq_some_iff.mp found).1
  exact ⟨max window k, by omega, by omega, mem_trailing.mpr ⟨k, by omega, by omega, found⟩⟩

theorem sweepUpTo_eq_mapM {β : Type} (f : Int → Except Fault β) (start : Int) (stop : Nat) :
    sweepUpTo f start stop = (List.range (stop - start).toNat).mapM fun (k : Nat) => f (start + k) :=
  sweep_eq_mapM f start _

/-- Rescaling succeeds if every close from bar one on is a number, and gives a value for every bar. -/
theorem rescale_ok (law : Trainable α) (same : raw.length = closes.length) (valid : 1 ≤ window)
    (enough : window < closes.length) (sound : ∀ k x, 1 ≤ k → closes[k]? = some x → isNaN x = false) :
    ∃ curve, rescale raw closes window = .ok curve ∧ curve.length = closes.length := by
  obtain ⟨scaled, swept⟩ : ∃ scaled, sweepUpTo (rescaleAt? raw (highest raw window) (lowest raw window)
      (highest closes window) (lowest closes window)) window raw.length = .ok scaled := by
    rw [sweepUpTo_eq_mapM]
    refine mapM_ok_of_forall fun k member => ?_
    have := List.mem_range.mp member
    have first : window ≤ window + k := by omega
    rcases rescaleAt?_cases law same valid first (by omega) with ⟨-, done⟩ | ⟨broken, -⟩
    · exact done
    · obtain ⟨x, inWindow, undefined⟩ := broken
      obtain ⟨j, first, -, found⟩ := mem_trailing.mp inWindow
      rw [sound j x (by omega) found] at undefined
      cases undefined
  have size := length_sweepUpTo swept
  refine ⟨_, by rw [rescale, swept]; rfl, ?_⟩
  rw [List.length_append, List.length_replicate, size]
  omega

/-- A close from bar one on that is not a number makes rescaling fail, with an operand that is not there. -/
theorem rescale_error (law : Trainable α) (same : raw.length = closes.length) (valid : 1 ≤ window)
    (enough : window < closes.length) {k : Nat} {x : α} (later : 1 ≤ k) (found : closes[k]? = some x)
    (undefined : isNaN x = true) :
    ∃ op, rescale raw closes window = .error (.undefinedOperand op false false) := by
  obtain ⟨i, first, last, member⟩ := exists_window valid enough later found
  cases swept : sweepUpTo (rescaleAt? raw (highest raw window) (lowest raw window)
      (highest closes window) (lowest closes window)) window raw.length with
  -- the sweep cannot pass the bar whose window is broken, and no other bar has another fault
  | ok scaled =>
    rw [sweepUpTo_eq_mapM] at swept
    obtain ⟨y, done⟩ := ok_of_mapM swept (List.mem_range.mpr (by omega : (i - window).toNat < _))
    have place : window + ((i - window).toNat : Int) = i := by omega
    rw [place] at done
    rcases rescaleAt?_cases law same valid first last with ⟨sound, -⟩ | ⟨-, op, broken⟩
    · exact absurd ⟨x, member, undefined⟩ sound
    · rw [broken] at done
      cases done
  | error fault =>
    obtain ⟨j, inside, failed⟩ := mapM_error (sweepUpTo_eq_mapM _ _ _ ▸ swept)
    have := List.mem_range.mp inside
    have first : window ≤ window + j := by omega
    rcases rescaleAt?_cases law same valid first (by omega) with ⟨-, y, done⟩ | ⟨-, op, broken⟩
    · rw [done] at failed
      cases failed
    · rw [broken] at failed
      cases failed
      exact ⟨op, by rw [rescale, swept]; rfl⟩

end ChartOverlay
