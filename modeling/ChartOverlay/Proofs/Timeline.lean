import ChartOverlay.Feed.Payload
import ChartOverlay.Feed.Placeholder
import ChartOverlay.History
import ChartOverlay.Proofs.Partial

/-!
# Timelines

A payload may list its records in any order and more than one of a time. What is made of it has one candle for
each time, that of the last record with the time: `inOrder_isTimeline`. In which order the records of different
times stand makes no difference, and histories are exactly the lists in strictly increasing order of time.
-/

namespace ChartOverlay

namespace Payload
variable {c d : Candle Float} {cs ds sorted : List (Candle Float)}

/-! ### Insertion -/

theorem mem_insert (ordered : sorted.Pairwise (·.time < ·.time)) :
    d ∈ insert c sorted ↔ d = c ∨ d ∈ sorted ∧ d.time ≠ c.time := by
  induction sorted with
  | nil => simp [insert]
  | cons x rest ih =>
    obtain ⟨first, tail⟩ := List.pairwise_cons.mp ordered
    rw [insert]
    split
    · rename_i before
      have later : ∀ y ∈ x :: rest, y.time ≠ c.time := by
        intro y member
        rcases List.mem_cons.mp member with rfl | member
        · omega
        · have := first y member
          omega
      rw [List.mem_cons]
      exact or_congr_right ⟨fun member => ⟨member, later d member⟩, And.left⟩
    · split
      · rename_i same
        have later : ∀ y ∈ rest, y.time ≠ c.time := by
          intro y member
          have := first y member
          omega
        rw [List.mem_cons, List.mem_cons]
        refine or_congr_right ⟨fun member => ⟨Or.inr member, later d member⟩, ?_⟩
        rintro ⟨rfl | member, other⟩
        · exact absurd same.symm other
        · exact member
      · rename_i other
        rw [List.mem_cons, List.mem_cons, ih tail]
        constructor
        · rintro (rfl | rfl | ⟨member, different⟩)
          · exact Or.inr ⟨Or.inl rfl, fun same => other same.symm⟩
          · exact Or.inl rfl
          · exact Or.inr ⟨Or.inr member, different⟩
        · rintro (rfl | ⟨rfl | member, different⟩)
          · exact Or.inr (Or.inl rfl)
          · exact Or.inl rfl
          · exact Or.inr (Or.inr ⟨member, different⟩)

theorem insert_ordered (c : Candle Float) (ordered : sorted.Pairwise (·.time < ·.time)) :
    (insert c sorted).Pairwise (·.time < ·.time) := by
  induction sorted with
  | nil => exact List.pairwise_singleton _ _
  | cons x rest ih =>
    obtain ⟨first, tail⟩ := List.pairwise_cons.mp ordered
    rw [insert]
    split
    · rename_i before
      apply List.pairwise_cons.mpr
      refine ⟨?_, ordered⟩
      intro y member
      rcases List.mem_cons.mp member with rfl | member
      · exact before
      · exact Int.lt_trans before (first y member)
    · split
      · rename_i same
        apply List.pairwise_cons.mpr
        refine ⟨?_, tail⟩
        intro y member
        rw [same]
        exact first y member
      · apply List.pairwise_cons.mpr
        refine ⟨?_, ih tail⟩
        intro y member
        rcases (mem_insert tail).mp member with rfl | ⟨member, _⟩
        · omega
        · exact first y member

/-- Candles put in their places one after the other. -/
def inOrder (cs : List (Candle Float)) : List (Candle Float) := cs.foldl (fun sorted c => insert c sorted) []

theorem inOrder_append (cs : List (Candle Float)) (c : Candle Float) :
    inOrder (cs ++ [c]) = insert c (inOrder cs) := by
  simp [inOrder]

theorem inOrder_ordered (cs : List (Candle Float)) : (inOrder cs).Pairwise (·.time < ·.time) := by
  induction cs using List.reverseRecOn with
  | nil => exact List.Pairwise.nil
  | append_singleton cs c ih =>
    rw [inOrder_append]
    exact insert_ordered c ih

/-- Of the candles of one time the last one is kept. -/
theorem mem_inOrder : d ∈ inOrder cs ↔ (cs.filter (·.time = d.time)).getLast? = some d := by
  induction cs using List.reverseRecOn with
  | nil => simp [inOrder]
  | append_singleton cs c ih =>
    rw [inOrder_append, mem_insert (inOrder_ordered cs), ih, List.filter_append, List.getLast?_append]
    by_cases same : c.time = d.time
    · simp [same, eq_comm]
    · have different : d ≠ c := by
        rintro rfl
        exact same rfl
      simp [same, different, Ne.symm same]

theorem eq_of_same_members (left : cs.Pairwise (·.time < ·.time)) (right : ds.Pairwise (·.time < ·.time))
    (same : ∀ d, d ∈ cs ↔ d ∈ ds) : cs = ds := by
  have distinct {xs : List (Candle Float)} (ordered : xs.Pairwise (·.time < ·.time)) : xs.Nodup := by
    refine ordered.imp ?_
    rintro a b before rfl
    exact Int.lt_irrefl _ before
  have perm := (List.perm_ext_iff_of_nodup (distinct left) (distinct right)).mpr same
  refine List.Perm.eq_of_pairwise ?_ left right perm
  intro a b _ _ before after
  exact absurd (Int.lt_trans before after) (Int.lt_irrefl _)

/-- What is made of candles is known from the candles of each time. -/
theorem inOrder_congr (same : ∀ t, cs.filter (·.time = t) = ds.filter (·.time = t)) :
    inOrder cs = inOrder ds := by
  apply eq_of_same_members (inOrder_ordered cs) (inOrder_ordered ds)
  intro d
  rw [mem_inOrder, mem_inOrder, same]

/-! ### Records -/

variable {letters : Bool} {item : Json} {items others : List Json} {payload : Json}

theorem candle?_ok (h : candle? letters item = .ok c) :
    time? item = .ok c.time ∧ ∃ x, price? letters item "open" "o" = .ok x := by
  unfold candle? at h
  cases isRecord : item.isObject with
  | false =>
    rw [isRecord] at h
    cases h
  | true =>
    simp only [isRecord, Bool.not_true, Bool.false_eq_true, if_false] at h
    obtain ⟨t, read, h⟩ := bind_ok h
    obtain ⟨opening, first, h⟩ := bind_ok h
    obtain ⟨high, _, h⟩ := bind_ok h
    obtain ⟨low, _, h⟩ := bind_ok h
    obtain ⟨close, _, h⟩ := bind_ok h
    obtain ⟨volume, _, h⟩ := bind_ok h
    obtain rfl := pure_ok h
    exact ⟨read, opening, first⟩

/-- The records of a time, in the order of a payload. -/
def recordsAt (t : Int) (items : List Json) : List Json := items.filter fun item => time? item = .ok t

theorem mapM_recordsAt (read : items.mapM (candle? letters) = .ok cs) (t : Int) :
    (recordsAt t items).mapM (candle? letters) = .ok (cs.filter (·.time = t)) := by
  rw [mapM_ok_iff] at read ⊢
  unfold recordsAt
  have same : List.Forall₂ (fun item c => candle? letters item = .ok c ∧ time? item = .ok c.time) items cs :=
    read.imp fun item c h => ⟨h, (candle?_ok h).1⟩
  refine (List.rel_filter ?_ same).imp fun item c h => h.1
  rintro item c ⟨-, time⟩
  simp [time]

theorem getLast?_of_forall₂ {α β : Type} {r : α → β → Prop} {xs : List α} {ys : List β}
    (h : List.Forall₂ r xs ys) {y : β} (last : ys.getLast? = some y) : ∃ x, xs.getLast? = some x ∧ r x y := by
  induction h with
  | nil => cases last
  | @cons x y' xs ys first rest ih =>
    cases rest with
    | nil =>
      obtain rfl : y' = y := by simpa using last
      exact ⟨x, rfl, first⟩
    | cons _ _ =>
      rw [List.getLast?_cons_cons] at last ⊢
      exact ih last

/-- One candle for each time of a record, made of the last record with that time, in order of time. -/
structure IsTimeline (letters : Bool) (items : List Json) (candles : List (Candle Float)) : Prop where
  ordered : candles.Pairwise (·.time < ·.time)
  times : ∀ t, t ∈ candles.map (·.time) ↔ ∃ item ∈ items, time? item = .ok t
  last : ∀ c ∈ candles, ∃ item,
    (recordsAt c.time items).getLast? = some item ∧ candle? letters item = .ok c

theorem inOrder_isTimeline (read : items.mapM (candle? letters) = .ok cs) :
    IsTimeline letters items (inOrder cs) where
  ordered := inOrder_ordered cs
  times t := by
    have records := mapM_ok_iff.mp (mapM_recordsAt read t)
    rw [List.mem_map]
    constructor
    · rintro ⟨c, member, rfl⟩
      obtain ⟨item, last, _⟩ := getLast?_of_forall₂ records (mem_inOrder.mp member)
      have known := List.mem_filter.mp (List.mem_of_getLast? last)
      exact ⟨item, known.1, of_decide_eq_true known.2⟩
    · rintro ⟨item, member, time⟩
      -- a record of that time is among those of the time, so there is a last one
      have known : item ∈ recordsAt t items := List.mem_filter.mpr ⟨member, decide_eq_true time⟩
      have filled : cs.filter (·.time = t) ≠ [] := by
        intro none
        rw [none, List.forall₂_nil_right_iff] at records
        rw [records] at known
        cases known
      have last := List.getLast?_eq_getLast_of_ne_nil filled
      have here := (List.mem_filter.mp (List.getLast_mem filled)).2
      have time := of_decide_eq_true here
      refine ⟨_, mem_inOrder.mpr ?_, time⟩
      rw [time]
      exact last
  last c member :=
    getLast?_of_forall₂ (mapM_ok_iff.mp (mapM_recordsAt read c.time)) (mem_inOrder.mp member)

/-- A payload with other records in the place of its own. -/
def withItems (items : List Json) : Json → Json
  | .object fields => .object (Json.setField "data" (.array items) fields)
  | _ => .array items

theorem lookup_setField (name : Text) (value : Json) (fields : List (Text × Json)) :
    (Json.setField name value fields).lookup name = some value := by
  induction fields with
  | nil => simp [Json.setField]
  | cons field rest ih =>
    rw [Json.setField]
    split
    · rename_i same
      simp [same]
    · rename_i other
      have different : (name == field.1) = false := by simpa using Ne.symm other
      rw [List.lookup_cons, different]
      exact ih

theorem field?_of_price? {name letter : String} {x : Float} (h : price? false item name letter = .ok x) :
    (item.field? name).isSome := by
  unfold price? lookup? at h
  cases found : item.field? name with
  | none => simp [found] at h
  | some value => rfl

theorem items?_filled (asked : items? payload = .ok (items, false)) : items ≠ [] := by
  unfold items? at asked
  split at asked
  · split at asked <;> cases asked
    exact List.cons_ne_nil _ _
  · cases asked
  · cases asked

theorem items?_withItems (asked : items? payload = .ok (items, letters)) (filled : letters = false → others ≠ [])
    (opened : letters = false → ∀ item ∈ others, (item.field? "open").isSome) :
    items? (withItems others payload) = .ok (others, letters) := by
  cases payload with
  | array old =>
    unfold items? at asked
    split at asked
    · split at asked
      · obtain ⟨-, rfl⟩ := Prod.mk.inj (Except.ok.inj asked)
        obtain ⟨first, rest, rfl⟩ := List.exists_cons_of_ne_nil (filled rfl)
        exact if_pos (opened rfl first List.mem_cons_self)
      · cases asked
    · contradiction
    · cases asked
  | object fields =>
    unfold items? at asked
    split at asked
    · contradiction
    · obtain ⟨-, rfl⟩ := Prod.mk.inj (Except.ok.inj asked)
      simp [withItems, items?, Json.field?, lookup_setField]
    · cases asked
  | _ => cases asked

theorem candles?_of_read (asked : items? payload = .ok (items, letters))
    (read : items.mapM (candle? letters) = .ok cs) : candles? payload = .ok (inOrder cs) := by
  rw [candles?, asked, ok_bind]
  simp only [read]
  rfl

theorem candles?_read {candles : List (Candle Float)} (h : candles? payload = .ok candles) :
    ∃ items letters cs, items? payload = .ok (items, letters) ∧ items.mapM (candle? letters) = .ok cs ∧
      inOrder cs = candles := by
  obtain ⟨⟨items, letters⟩, asked, h⟩ := bind_ok h
  obtain ⟨cs, read, h⟩ := bind_ok h
  exact ⟨items, letters, cs, asked, read, pure_ok h⟩

/-- Another order of the records makes no difference if it keeps those of each time in order. -/
theorem candles?_withItems (asked : items? payload = .ok (items, letters))
    (read : items.mapM (candle? letters) = .ok cs) (perm : others.Perm items)
    (kept : ∀ t, recordsAt t others = recordsAt t items) :
    candles? (withItems others payload) = .ok (inOrder cs) := by
  have each : ∀ item ∈ others, ∃ c, candle? letters item = .ok c :=
    fun item member => ok_of_mapM read (perm.subset member)
  obtain ⟨ds, again⟩ := mapM_ok_of_forall each
  have same : inOrder ds = inOrder cs := by
    apply inOrder_congr
    intro t
    have here := mapM_recordsAt again t
    rw [kept t, mapM_recordsAt read t] at here
    exact (Except.ok.inj here).symm
  rw [← same]
  refine candles?_of_read (items?_withItems asked ?_ ?_) again
  · rintro rfl none
    exact items?_filled asked (none ▸ perm).nil_eq.symm
  · rintro rfl item member
    obtain ⟨c, here⟩ := each item member
    obtain ⟨_, _, first⟩ := candle?_ok here
    exact field?_of_price? first

theorem candles?_ordered {candles : List (Candle Float)} (h : candles? payload = .ok candles) :
    candles.Pairwise (·.time < ·.time) := by
  obtain ⟨_, _, cs, _, _, rfl⟩ := candles?_read h
  exact inOrder_ordered cs

end Payload

/-! ### Histories -/

section Histories
variable {α : Type} {candles : List (Candle α)}

theorem first?_append {before rest : List (Candle α)} {a : Candle α}
    (ordered : (before ++ [a]).Pairwise (·.time < ·.time)) :
    Disorder.first? (before ++ a :: rest) = Disorder.first? (a :: rest) := by
  induction before with
  | nil => rfl
  | cons x before ih =>
    obtain ⟨first, tail⟩ := List.pairwise_cons.mp ordered
    obtain ⟨y, after, split⟩ : ∃ y after, before ++ a :: rest = y :: after :=
      List.exists_cons_of_ne_nil (by simp)
    have member : y ∈ before ++ [a] := by
      cases before with
      | nil => simp_all
      | cons z before => simp_all
    have increasing := first y member
    rw [List.cons_append, split, Disorder.first?, if_neg (by omega), ← split]
    exact ih tail

theorem first?_eq_none_iff : Disorder.first? candles = none ↔ candles.Pairwise (·.time < ·.time) := by
  constructor
  · exact Disorder.pairwise_of_first?_eq_none
  · intro ordered
    rcases List.eq_nil_or_concat candles with rfl | ⟨before, a, rfl⟩
    · rfl
    · rw [List.concat_eq_append] at ordered ⊢
      exact first?_append ordered

/-- Of the neighbours of which the second is not later, the first. -/
def IsFirstDisorder (candles : List (Candle α)) (d : Disorder) : Prop :=
  ∃ before a b after, candles = before ++ a :: b :: after ∧ (before ++ [a]).Pairwise (·.time < ·.time) ∧
    b.time ≤ a.time ∧ d = ⟨a.time, b.time⟩

theorem first?_eq_some_iff {d : Disorder} : Disorder.first? candles = some d ↔ IsFirstDisorder candles d := by
  constructor
  · intro h
    fun_induction Disorder.first? candles with
    | case1 a b rest back =>
      exact ⟨[], a, b, rest, rfl, List.pairwise_singleton _ _, back, (Option.some.inj h).symm⟩
    | case2 a b rest forward ih =>
      obtain ⟨before, x, y, after, split, ordered, back, same⟩ := ih h
      refine ⟨a :: before, x, y, after, congrArg (a :: ·) split, ?_, back, same⟩
      apply List.pairwise_cons.mpr
      refine ⟨?_, ordered⟩
      intro c member
      -- what follows `a` starts with `b` and goes up from there
      cases before with
      | nil =>
        obtain ⟨rfl, _⟩ := List.cons.inj split
        obtain rfl := List.mem_singleton.mp member
        omega
      | cons z before =>
        obtain ⟨rfl, _⟩ := List.cons.inj split
        rcases List.mem_cons.mp member with rfl | member
        · omega
        · have := (List.pairwise_cons.mp ordered).1 c member
          omega
    | case3 => cases h
  · rintro ⟨before, a, b, after, rfl, ordered, back, rfl⟩
    rw [first?_append ordered, Disorder.first?, if_pos back]

theorem ofCandles?_ok_iff :
    (∃ history, History.ofCandles? candles = .ok history ∧ history.candles = candles) ↔
      candles.Pairwise (·.time < ·.time) := by
  rw [← first?_eq_none_iff]
  unfold History.ofCandles?
  split
  · rename_i none
    exact iff_of_true ⟨_, rfl, rfl⟩ none
  · rename_i d found
    rw [found]
    exact iff_of_false (by simp) (by simp)

theorem ofCandles?_error_iff {d : Disorder} :
    History.ofCandles? candles = .error d ↔ IsFirstDisorder candles d := by
  rw [← first?_eq_some_iff]
  unfold History.ofCandles?
  split
  · rename_i none
    simp [none]
  · rename_i found
    simp [found]

/-! ### Walks -/

theorem walk_later [Arith α] (draws : Draws α) (now : Int) (left k : Nat) (price : α) :
    ∀ c ∈ walk draws now left k price, now - left * daySeconds < c.time := by
  induction left generalizing k price with
  | zero =>
    intro c member
    cases member
  | succ left ih =>
    intro c member
    have day : daySeconds = 86400 := rfl
    rcases List.mem_cons.mp member with rfl | member
    · show now - (left + 1 : Nat) * daySeconds < now - left * daySeconds
      rw [day]
      omega
    · have later := ih _ _ c member
      rw [day] at later ⊢
      omega

theorem walk_ordered [Arith α] (draws : Draws α) (now : Int) (left k : Nat) (price : α) :
    (walk draws now left k price).Pairwise (·.time < ·.time) := by
  induction left generalizing k price with
  | zero => exact List.Pairwise.nil
  | succ left ih =>
    rw [walk]
    exact List.pairwise_cons.mpr ⟨walk_later draws now left _ _, ih _ _⟩

end Histories

end ChartOverlay
