import ChartOverlay.Proofs.Recovery
import ChartOverlay.Proofs.Timeline
import ChartOverlay.Service

/-!
# Delivery

What a feed delivers is a timeline, of its provider or of a random walk. `feed_forms_history` says that it always
forms a history, so that neither the service nor a command line finds the candles of a feed out of order.
-/

namespace ChartOverlay

section Feeds
variable {world : Surroundings} {reply : Reply}

theorem load_ordered {feed : Feed} {query : ChartQuery} {loaded : Loaded}
    (h : (feed.load world query reply).2 = .ok loaded) : loaded.candles.Pairwise (·.time < ·.time) := by
  unfold Feed.load at h
  cases read : query.candles? reply world.depth with
  | ok candles =>
    rw [read] at h
    obtain rfl := Except.ok.inj h
    obtain ⟨_, payload, _, accepted⟩ := ChartQuery.candles?_ok_iff.mp read
    exact Payload.candles?_ordered accepted
  | error e =>
    rw [read] at h
    dsimp only at h
    split at h
    · obtain rfl := Except.ok.inj h
      exact walk_ordered _ _ _ _ _
    · cases h

theorem history?_of_ordered {candles : List (Candle Float)} (ordered : candles.Pairwise (·.time < ·.time)) :
    ∃ history, Service.history? candles = .ok history := by
  obtain ⟨history, formed, _⟩ := ofCandles?_ok_iff.mpr ordered
  exact ⟨history, by rw [Service.history?, formed]; rfl⟩

/-- An answer does not say that candles are out of order. -/
def Service.Answer.isOrdered : Service.Answer → Bool
  | .disordered _ => false
  | _ => true

namespace Service

theorem send_isOrdered (j : Json) : (send j).isOrdered := by
  unfold send
  split <;> rfl

theorem not_escapes_crashed {ε β : Type} (x : Except ε β) :
    ¬ Escapes Answer.isOrdered (x.mapError fun _ => Answer.crashed) := by
  rw [escapes_mapError]
  rintro ⟨e, _, h⟩
  cases h

theorem chartAnswer_isOrdered (symbol : String) (r : ChartRequest) :
    (settle (chartAnswer world reply symbol r)).isOrdered := by
  cases h : chartAnswer world reply symbol r with
  | ok a =>
    obtain ⟨loaded, _, h⟩ := bind_ok h
    obtain ⟨history, _, h⟩ := bind_ok h
    obtain ⟨bundle, _, h⟩ := bind_ok h
    obtain rfl := pure_ok h
    exact send_isOrdered _
  | error a =>
    -- every other step of the chain fails with a crash
    have passes : ¬ Escapes Answer.isOrdered (chartAnswer world reply symbol r) := by
      unfold chartAnswer
      simp only [escapes_bind, not_escapes_crashed, false_or, mapError_ok_iff]
      rintro ⟨loaded, got, failed | ⟨history, _, bundle, _, e, h, _⟩⟩
      · obtain ⟨history, formed⟩ := history?_of_ordered (load_ordered got)
        rw [formed] at failed
        exact not_escapes_ok _ failed
      · cases h
    by_contra out
    exact passes ⟨a, h, Bool.eq_false_iff.mpr out⟩

theorem refuse_isOrdered (problems : List Problem) : (refuse problems).isOrdered := by
  unfold refuse
  split <;> rfl

theorem checked?_isOrdered {β : Type} {body : String} {check : Json → Validated β} {a : Answer}
    (h : checked? body check = .error a) : a.isOrdered := by
  unfold checked? at h
  cases got : body? body with
  | error e =>
    rw [got, error_bind] at h
    obtain rfl := Except.error.inj h
    unfold body? at got
    split at got
    · obtain rfl := Except.error.inj got
      exact refuse_isOrdered _
    · cases read : Json.readBody body bodyDepth with
      | ok j =>
        rw [read] at got
        cases got
      | error fault =>
        rw [read] at got
        obtain rfl := Except.error.inj got
        dsimp only
        split
        · exact refuse_isOrdered _
        · rfl
  | ok j =>
    rw [got, ok_bind] at h
    split at h
    · cases h
    · obtain rfl := Except.error.inj h
      exact refuse_isOrdered _

theorem chart_isOrdered (body symbol : String) :
    (handleRoute world reply body (.chart symbol)).answer.isOrdered := by
  simp only [handleRoute]
  cases asked : checked? body ChartRequest.read with
  | error a => exact checked?_isOrdered asked
  | ok r =>
    dsimp only
    exact chartAnswer_isOrdered symbol r

end Service

namespace CommandLine
variable {candles : List (Candle Float)} {scripts : List Text} {files : Files} {d : Disorder}

theorem compute_of_ordered (ordered : candles.Pairwise (·.time < ·.time)) (isPlaceholder : Bool) :
    compute candles scripts isPlaceholder ≠ .failed (.history d) := by
  obtain ⟨history, formed, _⟩ := ofCandles?_ok_iff.mpr ordered
  simp only [compute, formed]
  cases overlays? history scripts 0 <;> simp

theorem runFile_of_ordered (path : Text) : runFile files path scripts ≠ .failed (.history d) := by
  unfold runFile
  split
  · rename_i read
    obtain ⟨text, _, read⟩ := bind_ok read
    obtain ⟨payload, _, read⟩ := bind_ok read
    exact compute_of_ordered (Payload.candles?_ordered (mapError_ok_iff.mp read)) _
  · split <;> simp
  · simp
  · simp

theorem runChart_of_ordered (query : ChartQuery) : runChart world reply query scripts ≠ .failed (.history d) := by
  unfold runChart
  split
  · rename_i got
    exact compute_of_ordered (load_ordered got) _
  · simp

theorem execute_of_ordered (args : List Text) :
    (execute files world reply args).outcome ≠ .failed (.history d) := by
  unfold execute
  split
  · unfold run
    repeat' split
    all_goals
      first
      | exact runFile_of_ordered _
      | exact runChart_of_ordered _
      | simp
  · simp

end CommandLine

end Feeds

open Payload in
/-- The candles of an accepted payload are in strictly increasing order of time, one for each time of a record
and made of the last record with that time, and they stay the same if the records are put in another order that
keeps those of one time as they are. Histories are exactly the lists in such an order, and of others the first
neighbours that are not are reported. So what a feed delivers, placeholder candles included, is never refused. -/
theorem feed_forms_history {payload : Json} {candles : List (Candle Float)}
    (accepted : candles? payload = .ok candles) :
    (∃ items letters, items? payload = .ok (items, letters) ∧ IsTimeline letters items candles ∧
      ∀ others, others.Perm items → (∀ t, recordsAt t others = recordsAt t items) →
        candles? (withItems others payload) = .ok candles) ∧
    (∀ list : List (Candle Float), (∃ history, History.ofCandles? list = .ok history ∧ history.candles = list) ↔
      ∀ i j (_ : i < list.length) (_ : j < list.length), i < j → list[i].time < list[j].time) ∧
    (∀ (list : List (Candle Float)) (d : Disorder), History.ofCandles? list = .error d ↔ IsFirstDisorder list d) ∧
    (∃ history, History.ofCandles? candles = .ok history ∧ history.candles = candles) ∧
    (∀ symbol count now (draws : Draws Float), ∃ history,
      History.ofCandles? (placeholderCandles symbol count now draws) = .ok history ∧
        history.candles = placeholderCandles symbol count now draws) ∧
    (∀ (feed : Feed) world query reply loaded, (feed.load world query reply).2 = .ok loaded →
      ∃ history, History.ofCandles? loaded.candles = .ok history ∧ history.candles = loaded.candles) ∧
    (∀ world reply body symbol d,
      (Service.handleRoute world reply body (.chart symbol)).answer ≠ .disordered d) ∧
    ∀ files world reply args d, (CommandLine.execute files world reply args).outcome ≠ .failed (.history d) := by
  have ordered := candles?_ordered accepted
  obtain ⟨items, letters, cs, asked, read, rfl⟩ := candles?_read accepted
  refine ⟨⟨items, letters, asked, inOrder_isTimeline read, ?_⟩, ?_, ?_, ofCandles?_ok_iff.mpr ordered, ?_, ?_, ?_, ?_⟩
  · intro others perm kept
    exact candles?_withItems asked read perm kept
  · intro list
    rw [ofCandles?_ok_iff, List.pairwise_iff_getElem]
  · intro list d
    exact ofCandles?_error_iff
  · intro symbol count now draws
    exact ofCandles?_ok_iff.mpr (walk_ordered _ _ _ _ _)
  · intro feed world query reply loaded got
    exact ofCandles?_ok_iff.mpr (load_ordered got)
  · intro world reply body symbol d same
    have ordered : (Service.handleRoute world reply body (.chart symbol)).answer.isOrdered :=
      Service.chart_isOrdered body symbol
    rw [same] at ordered
    cases ordered
  · intro files world reply args d
    exact CommandLine.execute_of_ordered args

/-- A record with one price. -/
def flatRecord (time : Json) (price : Int) : Json := .object
  [("time", time), ("open", .whole price), ("high", .whole price), ("low", .whole price), ("close", .whole price)]

/-- Two of three records have one time once fractions are cut off; the later one has the price three. -/
def jumbledPayload : Json := .array [flatRecord (.number 5.75) 2, flatRecord (.whole 9) 1, flatRecord (.whole 5) 3]

def sortedPayload : Json := .array [flatRecord (.number 5.75) 2, flatRecord (.whole 5) 3, flatRecord (.whole 9) 1]

theorem feed_forms_history_of_jumbled : ∃ candles, Payload.candles? jumbledPayload = .ok candles ∧
    candles.map (fun c => (c.time, c.close)) = [(5, 3.0), (9, 1.0)] ∧
    Payload.candles? sortedPayload = .ok candles := by
  have first : Payload.time? (flatRecord (.number 5.75) 2) = .ok 5 := by rfl
  have second : Payload.time? (flatRecord (.whole 9) 1) = .ok 9 := by rfl
  have third : Payload.time? (flatRecord (.whole 5) 3) = .ok 5 := by rfl
  have accepted : Payload.candles? jumbledPayload =
      .ok [⟨5, 3.0, 3.0, 3.0, 3.0, none⟩, ⟨9, 1.0, 1.0, 1.0, 1.0, none⟩] := by rfl
  obtain ⟨items, letters, asked, _, reordered⟩ := (feed_forms_history accepted).1
  obtain ⟨rfl, rfl⟩ := Prod.mk.inj (Except.ok.inj asked)
  refine ⟨_, accepted, rfl, reordered _ ((List.Perm.swap _ _ _).cons _) ?_⟩
  intro t
  by_cases five : (5 : Int) = t
  · subst five
    simp [Payload.recordsAt, first, second, third]
  · simp [Payload.recordsAt, List.filter_cons, first, third, five]

end ChartOverlay
