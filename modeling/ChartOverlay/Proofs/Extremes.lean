import ChartOverlay.Proofs.DoubleOrder
import ChartOverlay.Proofs.Rescaling

/-!
# Extremes and their ages

The extreme of a window is looked for from its oldest value on, the age of the extreme from its newest value on.
Both come to the same place, since there is only one value of a window with nothing more extreme before it and only
less extreme values after it (`IsSplit.unique`). A value that is not a number counts as the most extreme one.
-/

namespace ChartOverlay

open Arith

section Ranking
variable {α : Type} [Arith α] {beats : α → α → Bool} {x y z : α}

/-- What looking for an extreme needs of a comparison. -/
structure IsRanking (beats : α → α → Bool) : Prop where
  numbers : ∀ {x y}, beats x y = true → isNaN x = false ∧ isNaN y = false
  asymm : ∀ {x y}, beats x y = true → beats y x = false
  between : ∀ {x y z}, isNaN y = false → beats x z = true → beats x y = true ∨ beats y z = true

theorem IsRanking.irrefl (law : IsRanking beats) (x : α) : beats x x = false := by
  rw [← Bool.not_eq_true]
  intro above
  rw [law.asymm above] at above
  cases above

/-- Whether a value is more extreme than another one. -/
def tops (beats : α → α → Bool) (x y : α) : Bool := !isNaN y && (isNaN x || beats x y)

theorem tops_iff : tops beats x y = true ↔ isNaN y = false ∧ (isNaN x = true ∨ beats x y = true) := by
  simp [tops]

theorem tops_eq (beats : α → α → Bool) (number : isNaN x = false) (number' : isNaN y = false) :
    tops beats x y = beats x y := by
  simp [tops, number, number']

theorem tops_asymm (law : IsRanking beats) (h : tops beats x y = true) : tops beats y x = false := by
  rw [← Bool.not_eq_true]
  intro turned
  obtain ⟨number, -⟩ := tops_iff.mp turned
  obtain ⟨number', -⟩ := tops_iff.mp h
  rw [tops_eq beats number number'] at h
  rw [tops_eq beats number' number, law.asymm h] at turned
  cases turned

theorem tops_between (law : IsRanking beats) (y : α) (h : tops beats x z = true) :
    tops beats x y = true ∨ tops beats y z = true := by
  rw [tops_iff] at h
  obtain ⟨last, first⟩ := h
  rw [tops_iff, tops_iff]
  cases middle : isNaN y with
  | true => exact Or.inr ⟨last, Or.inl rfl⟩
  | false =>
    rcases first with undefined | beaten
    · exact Or.inl ⟨rfl, Or.inl undefined⟩
    · apply (law.between middle beaten).imp
      · exact fun left => ⟨rfl, Or.inr left⟩
      · exact fun right => ⟨last, Or.inr right⟩

theorem tops_trans (law : IsRanking beats) (first : tops beats x y = true) (second : tops beats y z = true) :
    tops beats x z = true := by
  apply (tops_between law z first).resolve_right
  rw [tops_asymm law second]
  exact Bool.false_ne_true

/-! ### The split of a window -/

/-- The place of an extreme: no value before it is more extreme, and every value after it is less so. -/
structure IsSplit (beats : α → α → Bool) (before : List α) (x : α) (after : List α) : Prop where
  before : ∀ y ∈ before, tops beats y x = false
  after : ∀ y ∈ after, tops beats x y = true

theorem IsSplit.length_le {before before' after after' : List α} (split : IsSplit beats before x after)
    (split' : IsSplit beats before' y after') (same : before ++ x :: after = before' ++ y :: after') :
    before'.length ≤ before.length := by
  -- were the second place further on, each of the two values would have to be the less extreme one
  by_contra further
  have found : before'[before.length]? = some x := by
    have here := congrArg (fun window => window[before.length]?) same
    rw [List.getElem?_append_right (Nat.le_refl _), Nat.sub_self, List.getElem?_append_left (by omega)] at here
    exact here.symm
  have found' : after[before'.length - before.length - 1]? = some y := by
    have here := congrArg (fun window => window[before'.length]?) same
    rw [List.getElem?_append_right (by omega), List.getElem?_append_right (Nat.le_refl _), Nat.sub_self,
      List.getElem?_cons, if_neg (by omega)] at here
    exact here
  have above := split.after y (List.mem_of_getElem? found')
  rw [split'.before x (List.mem_of_getElem? found)] at above
  cases above

theorem IsSplit.unique {before before' after after' : List α} (split : IsSplit beats before x after)
    (split' : IsSplit beats before' y after') (same : before ++ x :: after = before' ++ y :: after') : x = y := by
  have length := Nat.le_antisymm (split'.length_le split same.symm) (split.length_le split' same)
  obtain ⟨-, tail⟩ := List.append_inj same length
  exact (List.cons.inj tail).1

/-- A value that is not a number makes the extreme one. -/
theorem IsSplit.isNaN_iff {before after : List α} (split : IsSplit beats before x after) :
    isNaN x = true ↔ ∃ y ∈ before ++ x :: after, isNaN y = true := by
  constructor
  · intro undefined
    exact ⟨x, by simp, undefined⟩
  · rintro ⟨y, member, undefined⟩
    rcases List.mem_append.mp member with older | member
    · have below := split.before y older
      rw [← Bool.not_eq_true, tops_iff, not_and] at below
      rw [← Bool.not_eq_false]
      intro number
      exact below number (Or.inl undefined)
    · rcases List.mem_cons.mp member with rfl | later
      · exact undefined
      · rw [(tops_iff.mp (split.after y later)).1] at undefined
        cases undefined

/-! ### One value more -/

section Steps
variable {before after : List α} (split : IsSplit beats before x after)
include split

theorem IsSplit.keep_newer (h : tops beats x y = true) : IsSplit beats before x (after ++ [y]) := by
  refine ⟨split.before, ?_⟩
  intro z member
  rcases List.mem_append.mp member with inside | last
  · exact split.after z inside
  · rw [List.mem_singleton.mp last]
    exact h

theorem IsSplit.move_newer (law : IsRanking beats) (h : tops beats x y = false) :
    IsSplit beats (before ++ x :: after) y [] := by
  refine ⟨?_, nofun⟩
  intro z member
  rw [← Bool.not_eq_true] at h ⊢
  intro above
  apply h
  rcases List.mem_append.mp member with inside | inside
  · apply (tops_between law x above).resolve_left
    rw [split.before z inside]
    exact Bool.false_ne_true
  · rcases List.mem_cons.mp inside with rfl | later
    · exact above
    · exact tops_trans law (split.after z later) above

theorem IsSplit.keep_older (h : tops beats y x = false) : IsSplit beats (before ++ [y]) x after := by
  refine ⟨?_, split.after⟩
  intro z member
  rcases List.mem_append.mp member with inside | last
  · exact split.before z inside
  · rw [List.mem_singleton.mp last]
    exact h

theorem IsSplit.move_older (law : IsRanking beats) (h : tops beats y x = true) :
    IsSplit beats [] y (after ++ x :: before) := by
  refine ⟨nofun, ?_⟩
  intro z member
  rcases List.mem_append.mp member with inside | inside
  · exact tops_trans law h (split.after z inside)
  · rcases List.mem_cons.mp inside with rfl | earlier
    · exact h
    · apply (tops_between law z h).resolve_right
      rw [split.before z earlier]
      exact Bool.false_ne_true

end Steps

/-- The values come from the oldest on, and none is undefined. -/
theorem extremeFrom_split (law : IsRanking beats) {before after xs : List α} {best : α}
    (numbers : ∀ y ∈ best :: xs, isNaN y = false) (split : IsSplit beats before best after) :
    ∃ before' after', before ++ best :: after ++ xs = before' ++ extremeFrom beats best xs :: after' ∧
      IsSplit beats before' (extremeFrom beats best xs) after' := by
  induction xs generalizing before after best with
  | nil => exact ⟨before, after, List.append_nil _, split⟩
  | cons y xs ih =>
    obtain ⟨first, others⟩ := List.forall_mem_cons.mp numbers
    obtain ⟨second, rest⟩ := List.forall_mem_cons.mp others
    rw [extremeFrom, first, if_neg Bool.false_ne_true, ← tops_eq beats first second]
    cases above : tops beats best y with
    | true =>
      obtain ⟨before', after', same, split'⟩ :=
        ih (List.forall_mem_cons.mpr ⟨first, rest⟩) (split.keep_newer above)
      exact ⟨before', after', by rw [if_pos rfl, ← same]; simp, split'⟩
    | false =>
      obtain ⟨before', after', same, split'⟩ := ih others (split.move_newer law above)
      exact ⟨before', after', by rw [if_neg Bool.false_ne_true, ← same]; simp, split'⟩

/-- The values come from the newest on; the age counts those that came before the extreme. -/
theorem extremeAgeFrom_split (law : IsRanking beats) {before after xs : List α} {best : α} {k : Nat}
    (count : after.length + 1 + before.length = k) (split : IsSplit beats before best after) :
    ∃ before' x after', after ++ best :: before ++ xs = after' ++ x :: before' ∧ IsSplit beats before' x after' ∧
      extremeAgeFrom beats best after.length k xs = after'.length := by
  induction xs generalizing before after best k with
  | nil => exact ⟨before, best, after, List.append_nil _, split, rfl⟩
  | cons y xs ih =>
    have step : extremeAgeFrom beats best after.length k (y :: xs) =
        if tops beats y best then extremeAgeFrom beats y k (k + 1) xs
        else extremeAgeFrom beats best after.length (k + 1) xs := by
      rw [extremeAgeFrom, tops]
      cases undefined : isNaN best with
      | true => cases xs <;> simp [extremeAgeFrom, undefined]
      | false => simp
    rw [step]
    cases above : tops beats y best with
    | true =>
      have seen : (after ++ best :: before).length = k := by
        rw [List.length_append, List.length_cons]
        omega
      have more : (after ++ best :: before).length + 1 + ([] : List α).length = k + 1 := by
        rw [seen, List.length_nil]
      obtain ⟨before', x, after', same, split', age⟩ := ih more (split.move_older law above)
      refine ⟨before', x, after', by rw [← same]; simp, split', ?_⟩
      rw [if_pos rfl, ← age, seen]
    | false =>
      have seen : after.length + 1 + (before ++ [y]).length = k + 1 := by
        rw [List.length_append, List.length_singleton]
        omega
      obtain ⟨before', x, after', same, split', age⟩ := ih seen (split.keep_older above)
      exact ⟨before', x, after', by rw [← same]; simp, split', age⟩

theorem exists_split (law : IsRanking beats) {window : List α} (filled : window ≠ []) :
    ∃ before x after, window = before ++ x :: after ∧ IsSplit beats before x after ∧
      extremeAge? beats window = some after.length := by
  obtain ⟨newest, earlier, turned⟩ := List.exists_cons_of_ne_nil (mt List.reverse_eq_nil_iff.mp filled)
  obtain ⟨before, x, after, same, split, age⟩ :=
    @extremeAgeFrom_split α _ beats law [] [] earlier newest 1 rfl
      ⟨List.forall_mem_nil _, List.forall_mem_nil _⟩
  refine ⟨before.reverse, x, after.reverse, ?_, ⟨?_, ?_⟩, ?_⟩
  · rw [← List.reverse_reverse window, turned]
    simpa using congrArg List.reverse same
  · intro y member
    exact split.before y (List.mem_reverse.mp member)
  · intro y member
    exact split.after y (List.mem_reverse.mp member)
  · rw [extremeAge?, turned, List.length_reverse]
    exact congrArg some age

/-- Wherever a window is split, the extreme is the value there, undefined if that is not a number. -/
theorem IsSplit.extreme?_eq (law : IsRanking beats) {before after : List α} (split : IsSplit beats before x after) :
    extreme? beats (before ++ x :: after) = defined x := by
  have filled : before ++ x :: after ≠ [] := by simp
  have undefined : ∀ y z : α, beats y z = true → isNaN z = false := fun y z h => (law.numbers h).2
  cases number : isNaN x with
  | true =>
    rw [defined, number, if_pos rfl, extreme?_eq_none_iff undefined filled]
    exact split.isNaN_iff.mp number
  | false =>
    have numbers : ∀ y ∈ before ++ x :: after, isNaN y = false := by
      simpa [number] using split.isNaN_iff
    obtain ⟨oldest, others, same⟩ := List.exists_cons_of_ne_nil filled
    rw [same] at numbers
    obtain ⟨before', after', same', found⟩ := @extremeFrom_split α _ beats law [] [] others oldest numbers
      ⟨List.forall_mem_nil _, List.forall_mem_nil _⟩
    rw [same, extreme?, ← split.unique found (same.trans same')]

/-! ### Bars -/

/-- What the extreme of the last `period` values up to bar `i` and its age say: the extreme is the value of its bar,
and that bar is the last one with such a value; or else a value is undefined, and the age is that of the last such. -/
structure Agree (weakly strictly : α → α → Bool) (values : List α) (period : Int) (i : Nat) (extreme : Option α)
    (age : Nat) : Prop where
  recent : age < period
  defined : (∀ y ∈ trailing period.toNat values i, isNaN y = false) →
    ∃ x, extreme = some x ∧ values[i - age]? = some x ∧
      (∀ y ∈ trailing period.toNat values i, weakly y x = true) ∧
      ∀ k y, i - age < k → k ≤ i → values[k]? = some y → strictly y x = true
  undefined : (∃ y ∈ trailing period.toNat values i, isNaN y = true) →
    extreme = none ∧ (∃ x, values[i - age]? = some x ∧ isNaN x = true) ∧
      ∀ k y, i - age < k → k ≤ i → values[k]? = some y → isNaN y = false

omit [Arith α] in
/-- The places of a window among all values. -/
theorem places_of_trailing {n i : Nat} {values before after : List α} (whole : n ≤ i + 1) (inside : i < values.length)
    (same : trailing n values i = before ++ x :: after) :
    after.length < n ∧ values[i - after.length]? = some x ∧
      ∀ k y, i - after.length < k → k ≤ i → values[k]? = some y → y ∈ after := by
  have size := congrArg List.length same
  rw [trailing, List.length_drop, List.length_take, List.length_append, List.length_cons] at size
  have split : values.take (i + 1) = ((values.take (i + 1)).take (i + 1 - n) ++ before) ++ x :: after := by
    rw [List.append_assoc, ← same, trailing, List.take_append_drop]
  have front : ((values.take (i + 1)).take (i + 1 - n) ++ before).length = i - after.length := by
    rw [List.length_append, List.length_take, List.length_take]
    omega
  have entries (k : Nat) (early : k ≤ i) : values[k]? = (values.take (i + 1))[k]? := by
    rw [List.getElem?_take_of_lt (by omega)]
  refine ⟨by omega, ?_, ?_⟩
  · rw [entries _ (Nat.sub_le _ _), split, List.getElem?_append_right (by omega), front, Nat.sub_self]
    rfl
  · intro k y later early found
    rw [entries k early, split, List.getElem?_append_right (by omega), front, List.getElem?_cons,
      if_neg (by omega)] at found
    exact List.mem_of_getElem? found

theorem exists_agree (law : IsRanking beats) {weakly strictly : α → α → Bool}
    (strict : ∀ x y, strictly y x = beats x y)
    (weak : ∀ x y, isNaN x = false → isNaN y = false → beats y x = false → weakly y x = true)
    {values : List α} {period : Int} (valid : 1 ≤ period) {i : Nat} (whole : period ≤ i + 1)
    (inside : i < values.length) : ∃ extreme age, (rolling period (extreme? beats) values)[i]? = some extreme ∧
      (rolling period (extremeAge? beats) values)[i]? = some (some age) ∧
      Agree weakly strictly values period i extreme age := by
  have entry {β : Type} (f : List α → Option β) :
      (rolling period f values)[i]? = some (f (trailing period.toNat values i)) := by
    rw [getElem?_rolling f inside, if_pos ⟨valid, whole⟩]
  have filled : trailing period.toNat values i ≠ [] := trailing_ne_nil (by omega) inside
  obtain ⟨before, x, after, same, split, age⟩ := exists_split law filled
  have extreme : extreme? beats (trailing period.toNat values i) = defined x := same ▸ split.extreme?_eq law
  obtain ⟨recent, here, newer⟩ := places_of_trailing (by omega) inside same
  refine ⟨defined x, after.length, by rw [entry, extreme], by rw [entry, age], by omega, ?_, ?_⟩
  · intro numbers
    have number : isNaN x = false := numbers x (by rw [same]; simp)
    have above : ∀ y ∈ after, beats x y = true := by
      intro y member
      rw [← tops_eq beats number (numbers y (by rw [same]; simp [member]))]
      exact split.after y member
    refine ⟨x, by rw [defined, number]; rfl, here, ?_, ?_⟩
    · intro y member
      apply weak x y number (numbers y member)
      rw [same] at member
      rcases List.mem_append.mp member with older | member
      · rw [← tops_eq beats (numbers y (by rw [same]; simp [older])) number]
        exact split.before y older
      · rcases List.mem_cons.mp member with rfl | later
        · exact law.irrefl y
        · exact law.asymm (above y later)
    · intro k y later early found
      rw [strict]
      exact above y (newer k y later early found)
  · intro broken
    rw [same] at broken
    have number := split.isNaN_iff.mpr broken
    refine ⟨by rw [defined, number]; rfl, ⟨x, here, number⟩, ?_⟩
    intro k z later early found
    exact (tops_iff.mp (split.after z (newer k z later early found))).1

end Ranking

/-! ### Doubles -/

section Doubles
variable {values : List Float} {period : Int} {i : Nat}

theorem isRanking_gt : IsRanking (gt (α := Float)) where
  numbers h := (Double.numbers_of_lt h).symm
  asymm h := Double.lt_asymm h
  between number h := (Double.lt_or_lt_of_lt number h).symm

theorem isRanking_lt : IsRanking (lt (α := Float)) where
  numbers h := Double.numbers_of_lt h
  asymm h := Double.lt_asymm h
  between number h := Double.lt_or_lt_of_lt number h

/-- The highest and the lowest value of a window stand where their ages say. -/
theorem extremes_agree (valid : 1 ≤ period) (whole : period ≤ i + 1) (inside : i < values.length) :
    (∃ extreme age, (highest values period)[i]? = some extreme ∧ (highestBars values period)[i]? = some (some age) ∧
      Agree le lt values period i extreme age) ∧
    ∃ extreme age, (lowest values period)[i]? = some extreme ∧ (lowestBars values period)[i]? = some (some age) ∧
      Agree (fun y x => le x y) gt values period i extreme age := by
  constructor
  · refine exists_agree isRanking_gt (fun x y => rfl) ?_ valid whole inside
    intro x y number number' below
    exact Double.le_of_not_lt number' number below
  · refine exists_agree isRanking_lt (fun x y => rfl) ?_ valid whole inside
    intro x y number number' above
    exact Double.le_of_not_lt number number' above

example : highestBars [3.0, 5.0, 5.0, -0.0, 0.0 / 0.0, 2.0] 3 = [none, none, some 0, some 1, some 0, some 1] := by
  decide +kernel

/-- The highest close twice, and once no close. -/
def brokenCloses : List Float := [3.0, 5.0, 5.0, -0.0, 0.0 / 0.0, 2.0]

theorem extremes_agree_of_brokenCloses :
    (∃ extreme age, (highest brokenCloses 3)[3]? = some extreme ∧ (highestBars brokenCloses 3)[3]? = some (some age) ∧
      Agree le lt brokenCloses 3 3 extreme age) ∧
    ∃ extreme age, (lowest brokenCloses 3)[5]? = some extreme ∧ (lowestBars brokenCloses 3)[5]? = some (some age) ∧
      Agree (fun y x => le x y) gt brokenCloses 3 5 extreme age :=
  ⟨(extremes_agree (by decide) (by decide) (by decide)).1, (extremes_agree (by decide) (by decide) (by decide)).2⟩

end Doubles

end ChartOverlay
