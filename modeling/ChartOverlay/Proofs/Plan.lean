import ChartOverlay.Proofs.Batch

/-!
# Plans

What a batch draws is settled before any candle is looked at: a plan lists its indicators, each with its
color counter, and its engines. `ofScripts?_ok_iff` splits a batch into reading its plan and drawing it.
-/

namespace ChartOverlay
variable {α : Type} [Arith α]

/-- One thing to draw: an indicator line of a script, or the engine of a script. -/
inductive Drawing (α : Type) [Arith α]
  | indicator (descriptor : Descriptor α) (colorIndex : Int)
  | engine (engine : Engine α)

namespace Drawing

def outcome? (history : History α) : Drawing α → Except Fault (Outcome α)
  | .indicator d colorIndex => do return { indicator := ← d.calculate history colorIndex }
  | .engine e => e.compute history

/-- What a drawing comes to; nothing where it fails. -/
def outcome (history : History α) (d : Drawing α) : Outcome α := (d.outcome? history).toOption.getD { }

def result? (history : History α) (d : Drawing α) : Option (Result α) := (d.outcome history).indicator

def markers (history : History α) (d : Drawing α) : List (Marker α) := (d.outcome history).markers

/-- Indicators in a row, each with the color counter that the ones before it leave. -/
def ofIndicators (colorIndex : Int) : List (Descriptor α) → List (Drawing α)
  | [] => []
  | d :: rest => .indicator d colorIndex :: ofIndicators (colorIndex + 1) rest

theorem outcome_eq {history : History α} {d : Drawing α} {o : Outcome α} (drawn : d.outcome? history = .ok o) :
    d.outcome history = o := by
  rw [outcome, drawn]
  rfl

end Drawing

structure Plan (α : Type) [Arith α] where
  drawings : List (Drawing α)
  nextColorIndex : Int

namespace Plan

/-- What a script asks for, from a color counter on. -/
def ofScript (colorIndex : Int) : Script α → Plan α
  | .generic indicators => ⟨Drawing.ofIndicators colorIndex indicators, colorIndex + indicators.length⟩
  | .engine engine => ⟨[.engine engine], colorIndex⟩

def append (p q : Plan α) : Plan α := ⟨p.drawings ++ q.drawings, q.nextColorIndex⟩

/-- The plan of a batch, each script from the color counter that the one before it leaves. -/
def ofScripts? (colorIndex : Int) : List Text → Except ScriptError (Plan α)
  | [] => .ok ⟨[], colorIndex⟩
  | script :: rest => do
    let first := ofScript colorIndex (← Script.ofText? script)
    let later ← ofScripts? first.nextColorIndex rest
    return first.append later

/-- No drawing fails. -/
def Succeeds (history : History α) (plan : Plan α) : Prop :=
  ∀ d ∈ plan.drawings, ∃ o, d.outcome? history = .ok o

/-- What the drawings come to, markers as they come. -/
def bundle (history : History α) (plan : Plan α) : Bundle α where
  results := plan.drawings.filterMap (·.result? history)
  markers := plan.drawings.flatMap (·.markers history)
  nextColorIndex := plan.nextColorIndex

variable {history : History α} {p q : Plan α}

theorem succeeds_append : (p.append q).Succeeds history ↔ p.Succeeds history ∧ q.Succeeds history :=
  List.forall_mem_append

theorem bundle_append : (p.append q).bundle history = (p.bundle history).append (q.bundle history) := by
  simp [bundle, append, Bundle.append]

theorem succeeds_single {d : Drawing α} {colorIndex : Int} :
    (Plan.mk [d] colorIndex).Succeeds history ↔ ∃ o, d.outcome? history = .ok o :=
  List.forall_mem_singleton

theorem bundle_single {d : Drawing α} {o : Outcome α} (colorIndex : Int) (drawn : d.outcome? history = .ok o) :
    (Plan.mk [d] colorIndex).bundle history =
      { results := o.indicator.toList, markers := o.markers, nextColorIndex := colorIndex } := by
  rw [bundle, List.flatMap_singleton, Drawing.markers, Drawing.outcome_eq drawn]
  cases result : o.indicator <;> simp [Drawing.result?, Drawing.outcome_eq drawn, result]

theorem ofScript_cons (colorIndex : Int) (d : Descriptor α) (rest : List (Descriptor α)) :
    ofScript colorIndex (.generic (d :: rest)) =
      (Plan.mk [.indicator d colorIndex] (colorIndex + 1)).append
        (ofScript (colorIndex + 1) (.generic rest)) := by
  have counter : colorIndex + (d :: rest).length = colorIndex + 1 + rest.length := by
    simp only [List.length_cons]
    omega
  simp only [ofScript, counter]
  rfl

end Plan

/-! ### Drawing a plan -/

namespace Bundle
open Plan

variable {history : History α} {colorIndex : Int} {b : Bundle α}

theorem ofIndicators?_ok_iff {indicators : List (Descriptor α)} :
    ofIndicators? history colorIndex indicators = .ok b ↔
      (ofScript colorIndex (.generic indicators)).Succeeds history ∧
        (ofScript colorIndex (.generic indicators)).bundle history = b := by
  induction indicators generalizing colorIndex b with
  | nil => simp [ofIndicators?, ofScript, Drawing.ofIndicators, Succeeds, bundle]
  | cons d rest ih =>
    rw [ofScript_cons, succeeds_append, succeeds_single, bundle_append]
    constructor
    · intro h
      obtain ⟨result, calculated, h⟩ := bind_ok h
      obtain ⟨later, tail, h⟩ := bind_ok h
      obtain rfl := pure_ok h
      obtain ⟨succeeds, rfl⟩ := ih.mp tail
      have drawn : (Drawing.indicator d colorIndex).outcome? history = .ok { indicator := result } := by
        rw [Drawing.outcome?, calculated]
        rfl
      exact ⟨⟨⟨_, drawn⟩, succeeds⟩, by rw [bundle_single _ drawn]; rfl⟩
    · rintro ⟨⟨⟨o, drawn⟩, succeeds⟩, rfl⟩
      rw [bundle_single _ drawn]
      obtain ⟨result, calculated, h⟩ := bind_ok drawn
      obtain rfl := pure_ok h
      rw [ofIndicators?, calculated, ok_bind, ih.mpr ⟨succeeds, rfl⟩]
      rfl

theorem ofScript?_ok_iff {script : Text} : ofScript? history colorIndex script = .ok b ↔
    ∃ asked, Script.ofText? script = .ok asked ∧ (ofScript colorIndex asked).Succeeds history ∧
      (ofScript colorIndex asked).bundle history = b := by
  constructor
  · intro h
    obtain ⟨asked, read, h⟩ := bind_ok h
    refine ⟨asked, mapError_ok_iff.mp read, ?_⟩
    cases asked with
    | generic indicators => exact ofIndicators?_ok_iff.mp (mapError_ok_iff.mp h)
    | engine engine =>
      obtain ⟨outcome, computed, h⟩ := bind_ok h
      have drawn : (Drawing.engine engine).outcome? history = .ok outcome := mapError_ok_iff.mp computed
      exact ⟨succeeds_single.mpr ⟨_, drawn⟩, (bundle_single _ drawn).trans (pure_ok h)⟩
  · rintro ⟨asked, read, succeeds, rfl⟩
    rw [ofScript?, mapError_ok_iff.mpr read, ok_bind]
    cases asked with
    | generic indicators => exact mapError_ok_iff.mpr (ofIndicators?_ok_iff.mpr ⟨succeeds, rfl⟩)
    | engine engine =>
      obtain ⟨o, drawn⟩ := succeeds_single.mp succeeds
      have computed : (engine.compute history).mapError OverlayError.calculation = .ok o :=
        mapError_ok_iff.mpr drawn
      simp only [computed, ok_bind]
      rw [ofScript, bundle_single _ drawn]
      rfl

/-- A batch succeeds exactly if its scripts can be read and all they ask for can be drawn. -/
theorem ofScripts?_ok_iff {scripts : List Text} : ofScripts? history colorIndex scripts = .ok b ↔
    ∃ plan, Plan.ofScripts? colorIndex scripts = .ok plan ∧ plan.Succeeds history ∧
      plan.bundle history = b := by
  induction scripts generalizing colorIndex b with
  | nil => simp [ofScripts?, Plan.ofScripts?, Succeeds, bundle]
  | cons script rest ih =>
    constructor
    · intro h
      obtain ⟨a, front, h⟩ := bind_ok h
      obtain ⟨later, back, h⟩ := bind_ok h
      obtain rfl := pure_ok h
      obtain ⟨asked, read, succeeds, rfl⟩ := ofScript?_ok_iff.mp front
      obtain ⟨plan, planned, succeed, rfl⟩ := ih.mp back
      have planned : Plan.ofScripts? (ofScript colorIndex asked).nextColorIndex rest = .ok plan := planned
      refine ⟨(ofScript colorIndex asked).append plan, ?_, succeeds_append.mpr ⟨succeeds, succeed⟩,
        bundle_append⟩
      rw [Plan.ofScripts?, read, ok_bind]
      simp only [planned, ok_bind]
      rfl
    · rintro ⟨_, planned, succeeds, rfl⟩
      obtain ⟨asked, read, planned⟩ := bind_ok planned
      obtain ⟨later, tail, planned⟩ := bind_ok planned
      obtain rfl := pure_ok planned
      obtain ⟨first, last⟩ := succeeds_append.mp succeeds
      have here := ofScript?_ok_iff.mpr ⟨asked, read, first, rfl⟩
      have there := ih.mpr ⟨later, tail, last, rfl⟩
      rw [ofScripts?, here, ok_bind]
      have there : ofScripts? history ((ofScript colorIndex asked).bundle history).nextColorIndex rest =
        .ok (later.bundle history) := there
      rw [there, ok_bind]
      exact congrArg Except.ok bundle_append.symm

end Bundle

/-- The bundle of a batch is that of its plan, with the markers in order of time. -/
theorem overlays?_ok_iff_plan {history : History α} {scripts : List Text} {colorIndex : Int} {b : Bundle α} :
    overlays? history scripts colorIndex = .ok b ↔
      ∃ plan, Plan.ofScripts? colorIndex scripts = .ok plan ∧ plan.Succeeds history ∧
        (plan.bundle history).sorted = b := by
  rw [overlays?_ok_iff]
  constructor
  · rintro ⟨raw, computed, rfl⟩
    obtain ⟨plan, planned, succeeds, rfl⟩ := Bundle.ofScripts?_ok_iff.mp computed
    exact ⟨plan, planned, succeeds, rfl⟩
  · rintro ⟨plan, planned, succeeds, rfl⟩
    exact ⟨_, Bundle.ofScripts?_ok_iff.mpr ⟨plan, planned, succeeds, rfl⟩, rfl⟩

end ChartOverlay
