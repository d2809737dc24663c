import ChartOverlay.Proofs.Partial
import ChartOverlay.Proofs.TimeOrder

/-!
# Batches one after another

A batch can be cut anywhere: `overlays?_append` says what the whole is in terms of its two parts, with the
color counter handed from the first to the second.
-/

namespace ChartOverlay
variable {α : Type} [Arith α]

/-- The markers of a script's engine, bar by bar. -/
def engineMarkers (history : History α) (script : Text) : List (Marker α) :=
  match (Script.ofText? script : Except ScriptError (Script α)) with
  | .ok (.engine engine) =>
    match engine.compute history with
    | .ok outcome => outcome.markers
    | .error _ => []
  | _ => []

namespace Bundle

/-- The bundle of a batch after another one, markers as they come. -/
def append (a b : Bundle α) : Bundle α where
  results := a.results ++ b.results
  markers := a.markers ++ b.markers
  nextColorIndex := b.nextColorIndex

theorem ofScripts?_append (history : History α) (colorIndex : Int) (first second : List Text) :
    ofScripts? history colorIndex (first ++ second) = (do
      let a ← ofScripts? history colorIndex first
      let b ← ofScripts? history a.nextColorIndex second
      return a.append b) := by
  induction first generalizing colorIndex with
  | nil =>
    rw [List.nil_append, ofScripts?, ok_bind]
    exact (bind_pure _).symm
  | cons script rest ih =>
    rw [List.cons_append, ofScripts?, ofScripts?]
    simp only [ih, bind_assoc, pure_bind, append, List.append_assoc]

theorem ofIndicators?_markers {history : History α} {colorIndex : Int} {indicators : List (Descriptor α)}
    {b : Bundle α} (h : ofIndicators? history colorIndex indicators = .ok b) : b.markers = [] := by
  induction indicators generalizing colorIndex b with
  | nil => rw [← Except.ok.inj h]
  | cons d rest ih =>
    obtain ⟨_, _, h⟩ := bind_ok h
    obtain ⟨later, tail, h⟩ := bind_ok h
    rw [← pure_ok h]
    show later.markers = []
    exact ih tail

theorem ofScript?_markers {history : History α} {colorIndex : Int} {script : Text} {b : Bundle α}
    (h : ofScript? history colorIndex script = .ok b) : b.markers = engineMarkers history script := by
  obtain ⟨asked, read, h⟩ := bind_ok h
  rw [mapError_ok_iff] at read
  cases asked with
  | generic indicators =>
    simp only [engineMarkers, read]
    exact ofIndicators?_markers (mapError_ok_iff.mp h)
  | engine engine =>
    obtain ⟨outcome, computed, h⟩ := bind_ok h
    obtain rfl := pure_ok h
    simp only [engineMarkers, read, mapError_ok_iff.mp computed]

theorem ofScripts?_markers {history : History α} {colorIndex : Int} {scripts : List Text} {b : Bundle α}
    (h : ofScripts? history colorIndex scripts = .ok b) :
    b.markers = scripts.flatMap (engineMarkers history) := by
  induction scripts generalizing colorIndex b with
  | nil => rw [← Except.ok.inj h, List.flatMap_nil]
  | cons script rest ih =>
    obtain ⟨first, here, h⟩ := bind_ok h
    obtain ⟨later, tail, h⟩ := bind_ok h
    obtain rfl := pure_ok h
    rw [List.flatMap_cons, ← ofScript?_markers here, ← ih tail]

end Bundle

theorem overlays?_error_iff {history : History α} {scripts : List Text} {colorIndex : Int}
    {e : OverlayError} : overlays? history scripts colorIndex = .error e ↔
      Bundle.ofScripts? history colorIndex scripts = .error e := by
  unfold overlays?
  cases Bundle.ofScripts? history colorIndex scripts <;> simp [Functor.map, Except.map]

theorem overlays?_ok_iff {history : History α} {scripts : List Text} {colorIndex : Int} {b : Bundle α} :
    overlays? history scripts colorIndex = .ok b ↔
      ∃ raw, Bundle.ofScripts? history colorIndex scripts = .ok raw ∧ raw.sorted = b := by
  unfold overlays?
  cases Bundle.ofScripts? history colorIndex scripts <;> simp [Functor.map, Except.map]

omit [Arith α] in
/-- Sorting parts first makes no difference to the whole. -/
theorem IsTimeSort.append {xs xs' ys ys' zs : List (Marker α)} (left : IsTimeSort xs xs')
    (right : IsTimeSort ys ys') (whole : IsTimeSort (xs ++ ys) zs) : IsTimeSort (xs' ++ ys') zs where
  perm := whole.perm.trans (left.perm.append right.perm).symm
  ordered := whole.ordered
  stable t := by rw [whole.stable, List.filter_append, List.filter_append, left.stable, right.stable]

/-- A batch fails with the first fault of its parts. Otherwise its results are those of the parts in a row
and its markers those of both in order of time: of one time in the order of the scripts, and within a
script in the order of its engine. -/
theorem overlays?_append (history : History α) (first second : List Text) (colorIndex : Int) :
    (∀ e, overlays? history (first ++ second) colorIndex = .error e ↔
      overlays? history first colorIndex = .error e ∨
        ∃ a, overlays? history first colorIndex = .ok a ∧
          overlays? history second a.nextColorIndex = .error e) ∧
    ∀ both, overlays? history (first ++ second) colorIndex = .ok both ↔
      ∃ a b, overlays? history first colorIndex = .ok a ∧
        overlays? history second a.nextColorIndex = .ok b ∧
        both.results = a.results ++ b.results ∧
        both.nextColorIndex = b.nextColorIndex ∧
        IsTimeSort (a.markers ++ b.markers) both.markers ∧
        IsTimeSort ((first ++ second).flatMap (engineMarkers history)) both.markers := by
  simp only [overlays?_error_iff, overlays?_ok_iff, Bundle.ofScripts?_append]
  constructor
  · intro e
    cases front : Bundle.ofScripts? history colorIndex first with
    | error _ => simp
    | ok a =>
      have counter : a.sorted.nextColorIndex = a.nextColorIndex := rfl
      simp only [ok_bind, reduceCtorEq, false_or, Except.ok.injEq, exists_eq_left', counter]
      cases Bundle.ofScripts? history a.nextColorIndex second <;> simp [pure, Except.pure]
  · intro both
    constructor
    · rintro ⟨raw, h, rfl⟩
      obtain ⟨a, front, h⟩ := bind_ok h
      obtain ⟨b, back, h⟩ := bind_ok h
      obtain rfl := pure_ok h
      have whole := sorted_markers (a.append b)
      refine ⟨a.sorted, b.sorted, ⟨a, front, rfl⟩, ⟨b, back, rfl⟩, rfl, rfl, ?_, ?_⟩
      · exact IsTimeSort.append (sorted_markers a) (sorted_markers b) whole
      · rwa [List.flatMap_append, ← Bundle.ofScripts?_markers front, ← Bundle.ofScripts?_markers back]
    · rintro ⟨_, _, ⟨a, front, rfl⟩, ⟨b, back, rfl⟩, results, counter, -, markers⟩
      have back : Bundle.ofScripts? history a.nextColorIndex second = .ok b := back
      refine ⟨a.append b, by rw [front, ok_bind, back]; rfl, ?_⟩
      rw [List.flatMap_append, ← Bundle.ofScripts?_markers front, ← Bundle.ofScripts?_markers back] at markers
      obtain ⟨_, _, _⟩ := both
      simp only [Bundle.sorted, Bundle.append, Bundle.mk.injEq] at results counter ⊢
      exact ⟨results.symm, (isTimeSort_mergeSort _).unique markers, counter.symm⟩

end ChartOverlay
