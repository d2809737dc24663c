import ChartOverlay.Engine.Outcome
import Mathlib

/-!
# Partial steps

A calculation is a chain of steps of which the first fault decides. `bind_ok` takes a chain that came to
an end apart, `mapM_ok_iff` reads a row of steps entry by entry, and `sweepUpTo_mono` is the row that is
broken off early.
-/

namespace ChartOverlay

section Chains
variable {ε α β γ : Type}

@[simp] theorem ok_bind (a : α) (f : α → Except ε β) : Except.ok a >>= f = f a := rfl

@[simp] theorem error_bind (e : ε) (f : α → Except ε β) : Except.error e >>= f = .error e := rfl

theorem bind_ok {x : Except ε α} {f : α → Except ε β} {b : β} (h : x >>= f = .ok b) :
    ∃ a, x = .ok a ∧ f a = .ok b := by
  cases x with
  | error e => cases h
  | ok a => exact ⟨a, rfl, h⟩

theorem pure_ok {a b : α} (h : (pure a : Except ε α) = .ok b) : a = b := Except.ok.inj h

theorem map_ok {x : Except ε α} {f : α → β} {b : β} (h : f <$> x = .ok b) : ∃ a, x = .ok a ∧ f a = b := by
  cases x with
  | error e => cases h
  | ok a => exact ⟨a, rfl, Except.ok.inj h⟩

theorem exists_ok_bind {x : Except ε α} {f : α → Except ε β} :
    (∃ b, x >>= f = .ok b) ↔ ∃ a, x = .ok a ∧ ∃ b, f a = .ok b := by
  cases x <;> simp

theorem exists_ok_pure (a : α) : ∃ b, (pure a : Except ε α) = .ok b := ⟨a, rfl⟩

theorem exists_ok_map {x : Except ε α} {f : α → β} : (∃ b, f <$> x = .ok b) ↔ ∃ a, x = .ok a := by
  cases x <;> simp [Functor.map, Except.map]

theorem mapError_ok_iff {δ : Type} {x : Except ε α} {f : ε → δ} {a : α} :
    x.mapError f = .ok a ↔ x = .ok a := by
  cases x <;> simp [Except.mapError]

/-- A row of steps comes to an end exactly if every step does. -/
theorem mapM_ok_iff {f : α → Except ε β} {xs : List α} {ys : List β} :
    xs.mapM f = .ok ys ↔ List.Forall₂ (fun x y => f x = .ok y) xs ys := by
  induction xs generalizing ys with
  | nil => cases ys <;> simp [pure, Except.pure]
  | cons x xs ih =>
    rw [List.mapM_cons, List.forall₂_cons_left_iff]
    constructor
    · intro h
      obtain ⟨y, first, h⟩ := bind_ok h
      obtain ⟨rest, later, h⟩ := bind_ok h
      obtain rfl := pure_ok h
      exact ⟨y, rest, first, ih.mp later, rfl⟩
    · rintro ⟨y, rest, first, later, rfl⟩
      rw [first, ih.mpr later]
      rfl

theorem mapM_congr_of_forall₂ {f : α → Except ε γ} {g : β → Except ε γ} {xs : List α} {ys : List β}
    (same : List.Forall₂ (fun x y => g y = f x) xs ys) : ys.mapM g = xs.mapM f := by
  induction same with
  | nil => rfl
  | cons first _ ih => rw [List.mapM_cons, List.mapM_cons, first, ih]

theorem mem_of_mapM {f : α → Except ε β} {xs : List α} {ys : List β} (h : xs.mapM f = .ok ys) {y : β}
    (member : y ∈ ys) : ∃ x ∈ xs, f x = .ok y := by
  rw [mapM_ok_iff] at h
  induction h with
  | nil => cases member
  | cons first _ ih =>
    rcases List.mem_cons.mp member with rfl | member
    · exact ⟨_, List.mem_cons_self, first⟩
    · obtain ⟨x, inside, same⟩ := ih member
      exact ⟨x, List.mem_cons_of_mem _ inside, same⟩

/-- Where a row of steps comes to an end, each of them does. -/
theorem ok_of_mapM {f : α → Except ε β} {xs : List α} {ys : List β} (h : xs.mapM f = .ok ys) {x : α}
    (member : x ∈ xs) : ∃ y, f x = .ok y := by
  rw [mapM_ok_iff] at h
  induction h with
  | nil => cases member
  | cons first _ ih =>
    rcases List.mem_cons.mp member with rfl | member
    · exact ⟨_, first⟩
    · exact ih member

/-- A row of steps none of which fails comes to an end. -/
theorem mapM_ok_of_forall {f : α → Except ε β} {xs : List α} (h : ∀ x ∈ xs, ∃ y, f x = .ok y) :
    ∃ ys, xs.mapM f = .ok ys := by
  induction xs with
  | nil => exact ⟨[], rfl⟩
  | cons x xs ih =>
    obtain ⟨y, first⟩ := h x List.mem_cons_self
    obtain ⟨ys, later⟩ := ih fun x member => h x (List.mem_cons_of_mem _ member)
    exact ⟨y :: ys, by rw [List.mapM_cons, first, ok_bind, later]; rfl⟩

theorem exists_ok_mapM {f : α → Except ε β} {xs : List α} :
    (∃ ys, xs.mapM f = .ok ys) ↔ ∀ x ∈ xs, ∃ y, f x = .ok y :=
  ⟨fun ⟨_, h⟩ _ => ok_of_mapM h, mapM_ok_of_forall⟩

/-- The fault of a row of steps is that of one of them. -/
theorem mapM_error {f : α → Except ε β} {xs : List α} {e : ε} (h : xs.mapM f = .error e) :
    ∃ x ∈ xs, f x = .error e := by
  induction xs with
  | nil => cases h
  | cons x xs ih =>
    cases first : f x with
    | error e' =>
      rw [List.mapM_cons, first, error_bind] at h
      cases h
      exact ⟨x, List.mem_cons_self, first⟩
    | ok y =>
      rw [List.mapM_cons, first, ok_bind] at h
      cases later : xs.mapM f with
      | error e' =>
        rw [later, error_bind] at h
        cases h
        obtain ⟨x', member, failed⟩ := ih later
        exact ⟨x', List.mem_cons_of_mem _ member, failed⟩
      | ok ys =>
        rw [later] at h
        cases h

/-- A row of steps that may give nothing. -/
theorem filterMap_of_mapM {f : α → Except ε (Option β)} {xs : List α} {ys : List (Option β)}
    (h : xs.mapM f = .ok ys) : ys.filterMap id = xs.filterMap fun x => (f x).toOption.join := by
  rw [mapM_ok_iff] at h
  induction h with
  | nil => rfl
  | cons first _ ih =>
    rw [List.filterMap_cons, List.filterMap_cons, first, ih]
    rfl

/-- A shorter row of steps that agree comes to an end too, with the front of the answers. -/
theorem mapM_mono {f g : α → Except ε β} {xs ys : List α} {later : List β} (extended : xs <+: ys)
    (agree : ∀ x ∈ xs, f x = g x) (h : ys.mapM g = .ok later) :
    ∃ answers, xs.mapM f = .ok answers ∧ answers <+: later := by
  induction xs generalizing ys later with
  | nil => exact ⟨[], rfl, List.nil_prefix⟩
  | cons x xs ih =>
    obtain ⟨ys, rfl, tail⟩ := List.cons_prefix_iff.mp extended
    rw [List.mapM_cons] at h
    obtain ⟨y, first, h⟩ := bind_ok h
    obtain ⟨rest, others, h⟩ := bind_ok h
    obtain rfl := pure_ok h
    obtain ⟨answers, front, short⟩ := ih tail (fun x member => agree x (List.mem_cons_of_mem _ member)) others
    refine ⟨y :: answers, ?_, List.cons_prefix_cons.mpr ⟨rfl, short⟩⟩
    rw [List.mapM_cons, agree x List.mem_cons_self, first, front]
    rfl

end Chains

/-! ### Sweeps -/

section Sweeps
variable {β : Type}

theorem sweep_eq_mapM (f : Int → Except Fault β) (start : Int) (count : Nat) :
    sweep f start count = (List.range count).mapM fun (k : Nat) => f (start + k) := by
  induction count generalizing start with
  | zero => rfl
  | succ count ih =>
    rw [sweep, ih, List.range_succ_eq_map, List.mapM_cons, List.mapM_map]
    simp only [Function.comp_def, Nat.succ_eq_add_one, Int.natCast_add, Int.natCast_zero, Int.natCast_one,
      Int.add_zero, Int.add_assoc, Int.add_comm 1]

theorem range_mono {m n : Nat} (le : m ≤ n) : List.range m <+: List.range n := by
  obtain ⟨k, rfl⟩ := Nat.exists_eq_add_of_le le
  rw [List.range_add]
  exact List.prefix_append _ _

/-- A sweep that stops earlier, over positions at which the steps agree. -/
theorem sweepUpTo_mono {f g : Int → Except Fault β} {start : Int} {m n : Nat} {later : List β} (le : m ≤ n)
    (agree : ∀ i, start ≤ i → i < m → f i = g i) (h : sweepUpTo g start n = .ok later) :
    ∃ answers, sweepUpTo f start m = .ok answers ∧ answers <+: later := by
  unfold sweepUpTo at h ⊢
  rw [sweep_eq_mapM] at h ⊢
  refine mapM_mono (range_mono (by omega)) ?_ h
  intro k member
  have := List.mem_range.mp member
  exact agree _ (by omega) (by omega)

theorem length_sweepUpTo {f : Int → Except Fault β} {start : Int} {stop : Nat} {answers : List β}
    (h : sweepUpTo f start stop = .ok answers) : answers.length = (stop - start).toNat := by
  rw [sweepUpTo, sweep_eq_mapM, mapM_ok_iff] at h
  rw [← h.length_eq, List.length_range]

/-- The answers of a sweep are those of its steps, in a row. -/
theorem getElem?_sweepUpTo {f : Int → Except Fault β} {start i : Int} {stop : Nat} {answers : List β}
    (h : sweepUpTo f start stop = .ok answers) (first : start ≤ i) (last : i < stop) :
    ∃ y, f i = .ok y ∧ answers[(i - start).toNat]? = some y := by
  have size := length_sweepUpTo h
  rw [sweepUpTo, sweep_eq_mapM, mapM_ok_iff, List.forall₂_iff_get] at h
  have inside : (i - start).toNat < answers.length := by omega
  have step := h.2 (i - start).toNat (by rw [List.length_range]; omega) inside
  have place : start + ((i - start).toNat : Int) = i := by omega
  rw [List.get_eq_getElem, List.getElem_range, place] at step
  exact ⟨_, step, List.getElem?_eq_getElem inside⟩

/-- The entries of a series whose bars before `start` all have one entry. -/
def padded (start : Int) (stop : Nat) (x : β) (answers : List β) : List β :=
  List.replicate (min start stop).toNat x ++ answers

section Padded
variable {start : Int} {stop i : Nat} {x : β} {answers : List β}

theorem length_padded (nonneg : 0 ≤ start) (size : answers.length = (stop - start).toNat) :
    (padded start stop x answers).length = stop := by
  rw [padded, List.length_append, List.length_replicate, size]
  omega

theorem getElem?_padded_before (before : i < start) (inside : i < stop) :
    (padded start stop x answers)[i]? = some x := by
  have early : i < (min start stop).toNat := by omega
  rw [padded, List.getElem?_append_left (by rwa [List.length_replicate]), List.getElem?_replicate_of_lt early]

theorem getElem?_padded (nonneg : 0 ≤ start) (first : start ≤ i) (inside : i < stop) :
    (padded start stop x answers)[i]? = answers[(i - start).toNat]? := by
  rw [padded, List.getElem?_append_right (by rw [List.length_replicate]; omega), List.length_replicate]
  congr 1
  omega

end Padded

/-! ### Checked operations -/

theorem div?_ok_iff [Arith β] {x y z : β} : Arith.div? x y = .ok z ↔ Arith.isZero y = false ∧ x / y = z := by
  rw [Arith.div?]
  split
  · rename_i zero
    simp [zero]
  · rename_i sound
    simp [sound]

theorem ratio?_ok_iff [Arith β] {p q : Int} {x : β} : Arith.ratio? p q = .ok x ↔
    q ≠ 0 ∧ Arith.isFinite (Arith.ofRatio p q : β) = true ∧ Arith.ofRatio p q = x := by
  rw [Arith.ratio?]
  by_cases zero : q = 0
  · simp [zero]
  · rw [if_neg zero]
    dsimp only
    split
    · rename_i finite
      simp [zero, finite]
    · rename_i infinite
      simp [infinite]

theorem floor?_ok_iff [Arith β] {x : β} {n : Int} :
    Arith.floor? x = .ok n ↔ Arith.isFinite x = true ∧ Arith.floor x = n := by
  have read : Arith.floor? x = if Arith.isFinite x then .ok (Arith.floor x)
      else if Arith.isNaN x then .error .undefinedToWhole else .error .infiniteToWhole := rfl
  rw [read]
  cases Arith.isFinite x <;> cases Arith.isNaN x <;> simp

/-! ### Entries -/

theorem entry?_ok_iff {xs : List β} {i : Int} {x : β} (nonneg : 0 ≤ i) :
    entry? xs i = .ok x ↔ xs[i.toNat]? = some x := by
  simp only [ entry?, Int.not_lt.mpr nonneg, if_false]
  cases xs[i.toNat]? <;> simp

theorem entry?_ok {xs : List β} {i : Int} (nonneg : 0 ≤ i) (inside : i < xs.length) : ∃ x, entry? xs i = .ok x :=
  ⟨_, (entry?_ok_iff nonneg).mpr (List.getElem?_eq_getElem (by omega))⟩

theorem entry?_natCast {xs : List β} {i : Nat} {x : β} (found : xs[i]? = some x) : entry? xs i = .ok x :=
  (entry?_ok_iff (Int.natCast_nonneg i)).mpr found

/-- A list that only grows keeps its entries. -/
theorem entry?_mono {xs ys : List β} {i : Int} (extended : xs <+: ys) (nonneg : 0 ≤ i)
    (inside : i < xs.length) : entry? xs i = entry? ys i := by
  have inside : i.toNat < xs.length := by omega
  have found := List.getElem?_eq_getElem inside
  have kept := (List.prefix_iff_getElem?.mp extended) _ inside
  rw [(entry?_ok_iff nonneg).mpr found, (entry?_ok_iff nonneg).mpr kept]

end Sweeps

end ChartOverlay
