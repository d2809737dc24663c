import ChartOverlay.Overlay

/-!
# Order of time

A bundle lists its markers in order of time, and those of one time as they came. `IsTimeSort` says what
that means, `IsTimeSort.unique` that it leaves one list only, and `sorted_markers` that a bundle is
sorted so.
-/

namespace ChartOverlay
variable {α : Type}

/-- `ys` holds the markers of `xs` in order of time, those of one time in the order of `xs`. -/
structure IsTimeSort (xs ys : List (Marker α)) : Prop where
  perm : ys.Perm xs
  ordered : ys.Pairwise (·.time ≤ ·.time)
  stable : ∀ t, ys.filter (·.time = t) = xs.filter (·.time = t)

theorem mem_of_same_times {xs ys : List (Marker α)}
    (same : ∀ t, xs.filter (·.time = t) = ys.filter (·.time = t)) {m : Marker α} (member : m ∈ xs) :
    m ∈ ys := by
  have : m ∈ xs.filter (·.time = m.time) := List.mem_filter.mpr ⟨member, decide_eq_true rfl⟩
  rw [same] at this
  exact (List.mem_filter.mp this).1

/-- A list in order of time is known from its markers of each time. -/
theorem eq_of_same_times {xs ys : List (Marker α)} (left : xs.Pairwise (·.time ≤ ·.time))
    (right : ys.Pairwise (·.time ≤ ·.time))
    (same : ∀ t, xs.filter (·.time = t) = ys.filter (·.time = t)) : xs = ys := by
  induction xs generalizing ys with
  | nil =>
    cases ys with
    | nil => rfl
    | cons y ys => cases mem_of_same_times (fun t => (same t).symm) (List.mem_cons_self (a := y))
  | cons x xs ih =>
    cases ys with
    | nil => cases mem_of_same_times same (List.mem_cons_self (a := x))
    | cons y ys =>
      obtain ⟨least, leftRest⟩ := List.pairwise_cons.mp left
      obtain ⟨first, rightRest⟩ := List.pairwise_cons.mp right
      -- each head is no later than the other one, so both lists start at one time
      have below : x.time ≤ y.time := by
        have known : y ∈ x :: xs := mem_of_same_times (fun t => (same t).symm) List.mem_cons_self
        rcases List.mem_cons.mp known with rfl | member
        · exact Int.le_refl _
        · exact least y member
      have above : y.time ≤ x.time := by
        have known : x ∈ y :: ys := mem_of_same_times same List.mem_cons_self
        rcases List.mem_cons.mp known with rfl | member
        · exact Int.le_refl _
        · exact first x member
      have together : x.time = y.time := Int.le_antisymm below above
      have heads := same y.time
      simp only [List.filter_cons, together, decide_true, if_true] at heads
      obtain ⟨rfl, tails⟩ := List.cons.inj heads
      refine congrArg (x :: ·) (ih leftRest rightRest fun t => ?_)
      by_cases here : x.time = t
      · rw [← here, tails]
      · have others := same t
        simpa only [List.filter_cons, here, decide_false, Bool.false_eq_true, if_false] using others

theorem IsTimeSort.unique {xs ys zs : List (Marker α)} (one : IsTimeSort xs ys) (other : IsTimeSort xs zs) :
    ys = zs :=
  eq_of_same_times one.ordered other.ordered fun t => (one.stable t).trans (other.stable t).symm

theorem isTimeSort_mergeSort (xs : List (Marker α)) :
    IsTimeSort xs (xs.mergeSort fun a b => decide (a.time ≤ b.time)) where
  perm := List.mergeSort_perm _ _
  ordered := by
    refine List.Pairwise.imp of_decide_eq_true (List.pairwise_mergeSort ?_ ?_ xs)
    · exact fun a b c => by simpa using Int.le_trans
    · exact fun a b => by simpa using Int.le_total _ _
  stable t := by
    have level : (xs.filter (·.time = t)).Pairwise fun a b => decide (a.time ≤ b.time) = true := by
      refine List.Pairwise.imp_of_mem (R := fun _ _ => True) ?_ (List.pairwise_of_forall fun _ _ => trivial)
      intro a b ha hb _
      have ha : a.time = t := by simpa using (List.mem_filter.mp ha).2
      have hb : b.time = t := by simpa using (List.mem_filter.mp hb).2
      simp [ha, hb]
    have kept := List.sublist_mergeSort (fun a b c => by simpa using Int.le_trans)
      (fun a b => by simpa using Int.le_total _ _) level List.filter_sublist
    have filtered := kept.filter (·.time = t)
    simp only [List.filter_filter, Bool.and_self] at filtered
    refine (filtered.eq_of_length ?_).symm
    exact ((List.mergeSort_perm xs _).filter _).length_eq.symm

theorem sorted_markers [Arith α] (b : Bundle α) : IsTimeSort b.markers b.sorted.markers :=
  isTimeSort_mergeSort b.markers

/-- In order of time the markers up to some time stand in front. -/
theorem takeWhile_eq_filter {p : Marker α → Bool} {xs : List (Marker α)}
    (ordered : xs.Pairwise (·.time ≤ ·.time)) (down : ∀ a b, a.time ≤ b.time → p b → p a) :
    xs.takeWhile p = xs.filter p := by
  induction xs with
  | nil => rfl
  | cons x xs ih =>
    obtain ⟨least, ordered⟩ := List.pairwise_cons.mp ordered
    by_cases here : p x
    · rw [List.takeWhile_cons_of_pos here, List.filter_cons_of_pos here, ih ordered]
    · rw [List.takeWhile_cons_of_neg here, List.filter_cons_of_neg here, List.filter_eq_nil_iff.mpr]
      intro y member reached
      exact here (down x y (least y member) reached)

/-- Sorting and keeping the markers of a class of times can be done in either order. -/
theorem IsTimeSort.filter {xs ys : List (Marker α)} {p : Marker α → Bool} (sort : IsTimeSort xs ys) :
    IsTimeSort (xs.filter p) (ys.filter p) where
  perm := sort.perm.filter p
  ordered := sort.ordered.sublist List.filter_sublist
  stable t := by
    rw [List.filter_filter, List.filter_filter]
    simp only [Bool.and_comm _ (p _)]
    rw [← List.filter_filter, ← List.filter_filter, sort.stable]

end ChartOverlay
