import ChartOverlay.CommandLine.Run
import ChartOverlay.Proofs.JsonReading
import ChartOverlay.Proofs.Recovery
import ChartOverlay.Proofs.Sendable
import ChartOverlay.Proofs.Timeline

/-!
# Three surfaces

Overlays are computed for a chart of the provider, for candles that a request brings along and for a file of candles.
`surfaces_agree` says that these come to the same, and that the candles of a chart can be posted back as they were
answered.
-/

namespace ChartOverlay

open CommandLine (RunError)

/-- What every surface comes to, once it has candles. -/
def computed? (candles : List (Candle Float)) (scripts : List Text) (colorIndex : Int) :
    Except RunError (Bundle Float) := do
  let history ← (History.ofCandles? candles).mapError .history
  (overlays? history scripts colorIndex).mapError .overlay

/-- How the service answers where a computation fails. -/
def CommandLine.RunError.answer : RunError → Service.Answer
  | .history d => .disordered d
  | _ => .crashed

theorem CommandLine.compute_eq (candles : List (Candle Float)) (scripts : List Text) (isPlaceholder : Bool) :
    CommandLine.compute candles scripts isPlaceholder =
      match computed? candles scripts 0 with
      | .ok bundle => .printed { bundle, isPlaceholder }
      | .error e => .failed e := by
  unfold CommandLine.compute computed?
  cases History.ofCandles? candles with
  | error d => rfl
  | ok history =>
    simp only [Except.mapError, ok_bind]
    cases overlays? history scripts 0 <;> rfl

/-! ### Failures -/

section Failures
variable {α : Type} [Arith α] {history : History α} {scripts : List Text} {colorIndex other : Int} {e : OverlayError}

/-- Indicators do not fail, and engines do not count colors. -/
theorem Bundle.ofScript?_error {script : Text} (failed : ofScript? history colorIndex script = .error e) :
    ofScript? history other script = .error e := by
  unfold ofScript? at failed ⊢
  cases asked : (Script.ofText? script : Except ScriptError (Script α)) with
  | error fault =>
    rw [asked] at failed
    exact failed
  | ok asked' =>
    cases asked' with
    | generic ds =>
      have drawn := ofIndicators?_eq (Script.indicators?_isSound (Script.indicators?_of_ofText? asked)) history
      simp [asked, drawn, Except.mapError] at failed
    | engine engine =>
      cases computed : engine.compute history with
      | error fault => simpa [asked, computed, Except.mapError] using failed
      | ok outcome => simp [asked, computed, Except.mapError, pure, Except.pure] at failed

theorem Bundle.ofScripts?_error (failed : ofScripts? history colorIndex scripts = .error e) :
    ofScripts? history other scripts = .error e := by
  induction scripts generalizing colorIndex other with
  | nil => cases failed
  | cons script rest ih =>
    rw [ofScripts?] at failed ⊢
    cases first : ofScript? history colorIndex script with
    | error fault =>
      rw [first] at failed
      rw [ofScript?_error first]
      exact failed
    | ok b =>
      cases same : ofScript? history other script with
      | error fault =>
        rw [ofScript?_error same] at first
        cases first
      | ok b' =>
        rw [first, ok_bind] at failed
        cases later : ofScripts? history b.nextColorIndex rest with
        | error fault =>
          rw [later] at failed
          cases failed
          rw [ok_bind, ih later]
          rfl
        | ok c =>
          rw [later] at failed
          cases failed

/-- With which color a batch begins makes no difference to its failure. -/
theorem overlays?_error_congr (colorIndex other : Int) :
    overlays? history scripts colorIndex = .error e ↔ overlays? history scripts other = .error e := by
  rw [overlays?_error_iff, overlays?_error_iff]
  exact ⟨Bundle.ofScripts?_error, Bundle.ofScripts?_error⟩

end Failures

def CommandLine.Outcome.ofOverlays : Except OverlayError (Bundle Float) → CommandLine.Outcome
  | .ok bundle => .printed { bundle, isPlaceholder := false }
  | .error e => .failed (.overlay e)

theorem CommandLine.execute_of_read {files : Files} {world : Surroundings} {reply : Reply} {args scripts : List Text}
    {path text : Text} {payload : Json} {cs : List (Candle Float)}
    (parsed : Arguments.parse? args = some { candles := some path, scripts }) (file : files.read path = .ok text)
    (holds : Json.read text = .ok payload) (read : Payload.candles? payload = .ok cs) :
    (execute files world reply args).outcome = compute cs scripts false := by
  have loaded : candlesOfFile? files path = .ok cs := by
    rw [candlesOfFile?, file]
    show (Json.read text).mapError _ >>= _ = _
    rw [holds]
    show (Payload.candles? payload).mapError _ = _
    rw [read]
    rfl
  have collected : scripts? files { candles := some path, scripts } = .ok (some scripts) := rfl
  rw [execute, parsed]
  simp [run, collected, runFile, loaded]

/-- A candle whose prices and volume can be written as they are. -/
structure Candle.IsFinite (c : Candle Float) : Prop where
  opening : c.opening.isFinite = true
  high : c.high.isFinite = true
  low : c.low.isFinite = true
  close : c.close.isFinite = true
  volume : ∀ v, c.volume = some v → v.isFinite = true

namespace Service

theorem overlayAnswer_eq (r : OverlayRequest) : overlayAnswer r =
    (computed? r.candles r.scripts r.colorIndex).mapError RunError.answer >>= fun bundle =>
      .ok (send bundle.report) := by
  unfold overlayAnswer history? computed?
  cases History.ofCandles? r.candles with
  | error d => rfl
  | ok history =>
    simp only [Except.mapError, ok_bind]
    cases overlays? history r.scripts r.colorIndex <;> rfl

/-- What a chart comes to: its candles and the overlays over them. -/
def chartComputed? (world : Surroundings) (reply : Reply) (symbol : String) (r : ChartRequest) :
    Except RunError (Loaded × Bundle Float) := do
  let loaded ← (Feed.load { } { world with depth := replyDepth } (r.query symbol) reply).2.mapError .load
  return (loaded, ← computed? loaded.candles r.scripts r.colorIndex)

/-- The fields of a chart beside its overlays. -/
def chartFields (query : ChartQuery) (loaded : Loaded) : List (Text × Json) :=
  [("symbol", .string query.symbol), ("timeframe", query.timeframe),
   ("candles", .array (loaded.candles.map Candle.report)), ("is_placeholder", .bool loaded.isPlaceholder)]

theorem chartAnswer_eq (world : Surroundings) (reply : Reply) (symbol : String) (r : ChartRequest) :
    chartAnswer world reply symbol r =
      (chartComputed? world reply symbol r).mapError RunError.answer >>= fun (loaded, bundle) =>
        .ok (send (.object (bundle.fields ++ chartFields (r.query symbol) loaded))) := by
  unfold chartAnswer chartComputed? history? computed?
  dsimp only
  cases (Feed.load { } { world with depth := replyDepth } (r.query symbol) reply).2 with
  | error e => rfl
  | ok loaded =>
    simp only [Except.mapError, ok_bind]
    cases History.ofCandles? loaded.candles with
    | error d => rfl
    | ok history =>
      simp only [ok_bind]
      cases overlays? history r.scripts r.colorIndex <;> rfl

/-! ### Candles there and back -/

section Candles
open Validated

theorem withoutInfinities_candle {c : Candle Float} (finite : c.IsFinite) :
    withoutInfinities c.report = c.report := by
  obtain ⟨opening, high, low, close, volume⟩ := finite
  cases given : c.volume with
  | none =>
    simp [Candle.report, withoutInfinities, fieldsWithout, opening, high, low, close, given, Json.ofOption]
  | some v =>
    simp [Candle.report, withoutInfinities, fieldsWithout, opening, high, low, close, given, volume v given,
      Json.ofOption]

theorem withoutInfinities_array (xs : List Json) :
    withoutInfinities (.array xs) = .array (xs.map withoutInfinities) := by
  show Json.array (itemsWithout xs) = _
  congr 1
  induction xs with
  | nil => rfl
  | cons x rest ih => rw [itemsWithout, List.map_cons, ih]

theorem field?_withoutInfinities (fields : List (Text × Json)) (name : Text) :
    (withoutInfinities (.object fields)).field? name = ((Json.object fields).field? name).map withoutInfinities := by
  show (fieldsWithout fields).lookup name = (fields.lookup name).map _
  induction fields with
  | nil => rfl
  | cons f rest ih =>
    obtain ⟨key, x⟩ := f
    rw [fieldsWithout, List.lookup_cons, List.lookup_cons, ih]
    cases name == key <;> rfl

theorem read_report (c : Candle Float) : Candle.read .requestType c.report = .valid c := by
  obtain ⟨time, opening, high, low, close, volume⟩ := c
  cases volume <;> rfl

theorem list_report (cs : List (Candle Float)) :
    list (Candle.read .requestType) (.array (cs.map Candle.report)) = .valid cs := by
  have each : ∀ i, items (Candle.read .requestType) i (cs.map Candle.report) = .valid cs := by
    induction cs with
    | nil => exact fun _ => rfl
    | cons c rest ih =>
      intro i
      rw [List.map_cons, items, read_report, ih]
      rfl
  exact each 0

end Candles

/-! ### Requests -/

section Requests
open Validated

variable {payload : Json} {cs : List (Candle Float)} {r : ChartRequest} {symbol : String} {reply : Reply}

/-- A body with the candles of an answer and with the scripts and the counter of the request for it. -/
structure Reposts (r : ChartRequest) (candles : Json) (j : Json) : Prop where
  record : j.isObject = true
  candles : j.field? "candles" = some candles
  scripts : optional j "scripts" [] (list Field.text) = .valid r.scripts
  colorIndex : optional j "color_index" 0 Field.whole = .valid r.colorIndex

theorem load_of_provided (world : Surroundings) (sent : (r.query symbol).sent?.isSome)
    (provided : reply.value? replyDepth = .ok payload) (read : Payload.candles? payload = .ok cs) :
    (Feed.load { } { world with depth := replyDepth } (r.query symbol) reply).2 =
      .ok { candles := cs, isPlaceholder := false } := by
  rw [Feed.load, ChartQuery.candles?_ok_iff.mpr ⟨sent, payload, provided, read⟩]

theorem read_of_reposts {j : Json} (h : Reposts r (.array (cs.map Candle.report)) j) :
    OverlayRequest.read j = .valid { candles := cs, scripts := r.scripts, colorIndex := r.colorIndex } := by
  obtain ⟨record, candles, scripts, colorIndex⟩ := h
  have required : required j "candles" (list (Candle.read .requestType)) = .valid cs := by
    rw [Validated.required, candles]
    show (list (Candle.read .requestType) (.array (cs.map Candle.report))).within _ = _
    rw [list_report]
    rfl
  rw [OverlayRequest.read, if_pos record, required, scripts, colorIndex]
  rfl

theorem checked?_of_read {β : Type} {body : String} {j : Json} {check : Json → Validated β} {x : β}
    (given : body? body = .ok j) (read : check j = .valid x) : checked? body check = .ok x := by
  rw [checked?, given, ok_bind, read]
  rfl

end Requests

end Service

/-! ### A chart of two candles -/

/-- A candle that ends where it began. -/
def doji (time : Int) (price : Float) : Candle Float :=
  { time, opening := price, high := price, low := price, close := price }

def dojis : History Float where
  candles := [doji 60 1.0, doji 120 2.0]
  ordered := by decide

def dojiText (time price : String) : String :=
  "\x7b\"time\":" ++ time ++ ",\"open\":" ++ price ++ ",\"high\":" ++ price ++ ",\"low\":" ++ price ++
    ",\"close\":" ++ price ++ ",\"volume\":null\x7d"

def pairText (first second : String) : String := "[" ++ first ++ "," ++ second ++ "]"

theorem dojiText_eq (time price : String) (rest : Text) : Text.ofString (dojiText time price) ++ rest =
    Text.ofString "\x7b\"time\":" ++ (Text.ofString time ++ (Text.ofString ",\"open\":" ++ (Text.ofString price ++
      (Text.ofString ",\"high\":" ++ (Text.ofString price ++ (Text.ofString ",\"low\":" ++ (Text.ofString price ++
        (Text.ofString ",\"close\":" ++ (Text.ofString price ++
          (Text.ofString ",\"volume\":null\x7d" ++ rest)))))))))) := by
  unfold dojiText
  simp only [Text.ofString_append]
  simp only [List.append_assoc]

/-- The later candle stands first. -/
def reversedChart : String := pairText (dojiText "120" "2.0") (dojiText "60" "1.0")

def postedBody : String :=
  "\x7b\"candles\":" ++ pairText (dojiText "60" "1.0") (dojiText "120" "2.0") ++
    ",\"scripts\":[\"sma 1\",\"ema 2\"]\x7d"

section Written
open Json Service
variable {depth : Nat} {time price first second : String} {t : Int} {x : Float} {i j : Json}

theorem unifyLineEnds_of_notMem {t : Text} (plain : .char '\r' ∉ t) : CommandLine.unifyLineEnds t = t := by
  fun_induction CommandLine.unifyLineEnds t with
  | case1 rest ih => simp at plain
  | case2 rest _ ih => simp at plain
  | case3 c rest _ _ ih => rw [ih (List.not_mem_of_not_mem_cons plain)]
  | case4 => rfl

theorem leaves_dojiText
    (whole : ∀ rest, Leaves (value depth ((Text.ofString time ++ .char ',' :: rest).dropWhile isSpacing)) (.whole t)
      (.char ',' :: rest))
    (number : ∀ rest, Leaves (value depth ((Text.ofString price ++ .char ',' :: rest).dropWhile isSpacing)) (.number x)
      (.char ',' :: rest)) (rest : Text) :
    Leaves (value (depth + 1) (Text.ofString (dojiText time price) ++ rest)) (doji t x).report rest := by
  have volume : Leaves (value depth (.char 'n' :: .char 'u' :: .char 'l' :: .char 'l' :: .char '\x7d' :: rest)) .null
      (.char '\x7d' :: rest) := leaves_word (by decide) rfl (Nat.le_add_right _ 3)
  -- the names are written out as rows first: as literals each step would look their characters up in bytes
  rw [dojiText_eq]
  generalize front : Text.ofString "\x7b\"time\":" = begun
  generalize opens : Text.ofString ",\"open\":" = opening
  generalize above : Text.ofString ",\"high\":" = high
  generalize below : Text.ofString ",\"low\":" = low
  generalize closes : Text.ofString ",\"close\":" = close
  generalize back : Text.ofString ",\"volume\":null\x7d" = ending
  conv at front => lhs; cbv
  conv at opens => lhs; cbv
  conv at above => lhs; cbv
  conv at below => lhs; cbv
  conv at closes => lhs; cbv
  conv at back => lhs; cbv
  subst front opens above below closes back
  refine leaves_object rfl (by decide) ?_
  refine leaves_more ⟨_, rfl, rfl⟩ rfl (whole _) rfl ?_
  refine leaves_more ⟨_, rfl, rfl⟩ rfl (number _) rfl ?_
  refine leaves_more ⟨_, rfl, rfl⟩ rfl (number _) rfl ?_
  refine leaves_more ⟨_, rfl, rfl⟩ rfl (number _) rfl ?_
  refine leaves_more ⟨_, rfl, rfl⟩ rfl (number _) rfl ?_
  exact leaves_last ⟨_, rfl, rfl⟩ rfl volume rfl rfl

theorem leaves_early (depth : Nat) (rest : Text) :
    Leaves (value (depth + 1) (Text.ofString (dojiText "60" "1.0") ++ rest)) (doji 60 1.0).report rest := by
  refine leaves_dojiText (fun rest => ?_) (fun rest => ?_) rest
  · exact leaves_numeral (c := .char '6') (t := .char '0' :: .char ',' :: rest) (by decide) rfl rfl rfl
      (Nat.le_add_right _ 1)
  · exact leaves_numeral (c := .char '1') (t := .char '.' :: .char '0' :: .char ',' :: rest) (by decide) rfl rfl rfl
      (Nat.le_add_right _ 2)

theorem leaves_late (depth : Nat) (rest : Text) :
    Leaves (value (depth + 1) (Text.ofString (dojiText "120" "2.0") ++ rest)) (doji 120 2.0).report rest := by
  refine leaves_dojiText (fun rest => ?_) (fun rest => ?_) rest
  · exact leaves_numeral (c := .char '1') (t := .char '2' :: .char '0' :: .char ',' :: rest) (by decide) rfl rfl rfl
      (Nat.le_add_right _ 2)
  · exact leaves_numeral (c := .char '2') (t := .char '.' :: .char '0' :: .char ',' :: rest) (by decide) rfl rfl rfl
      (Nat.le_add_right _ 2)

theorem leaves_pairText (begun : ∃ tail, Text.ofString first = .char '\x7b' :: tail)
    (begun' : ∃ tail, Text.ofString second = .char '\x7b' :: tail)
    (left : ∀ rest, Leaves (value (depth + 1) (Text.ofString first ++ rest)) i rest)
    (right : ∀ rest, Leaves (value (depth + 1) (Text.ofString second ++ rest)) j rest) (rest : Text) :
    Leaves (value (depth + 2) ((Text.ofString (pairText first second) ++ rest).dropWhile isSpacing)) (.array [i, j])
      rest := by
  obtain ⟨tail, same⟩ := begun
  obtain ⟨tail', same'⟩ := begun'
  have spelled : Text.ofString (pairText first second) ++ rest =
      .char '[' :: (Text.ofString first ++ .char ',' :: (Text.ofString second ++ .char ']' :: rest)) := by
    simp only [pairText, Text.ofString_append, List.append_assoc]
    rfl
  rw [same] at left spelled
  rw [same'] at right spelled
  rw [spelled]
  refine leaves_array rfl (by decide) ?_
  refine leaves_moreItems (left _) rfl ?_
  exact leaves_lastItem (right _) rfl rfl

theorem dojiText_begun (time price : String) : ∃ tail, Text.ofString (dojiText time price) = .char '\x7b' :: tail := by
  rw [← List.append_nil (Text.ofString _), dojiText_eq]
  generalize front : Text.ofString "\x7b\"time\":" = begun
  conv at front => lhs; cbv
  subst front
  exact ⟨_, rfl⟩

/-- The two candles as the provider has them, the later one first. -/
theorem leaves_reversedChart (depth : Nat) :
    Leaves (value (depth + 2) ((Text.ofString reversedChart).dropWhile isSpacing))
      (.array [(doji 120 2.0).report, (doji 60 1.0).report]) [] := by
  have whole := leaves_pairText (dojiText_begun "120" "2.0") (dojiText_begun "60" "1.0") (leaves_late depth)
    (leaves_early depth) []
  rwa [List.append_nil] at whole

theorem leaves_postedBody : Leaves (value bodyDepth ((Text.ofString postedBody).dropWhile isSpacing))
    (.object [("candles", .array [(doji 60 1.0).report, (doji 120 2.0).report]),
      ("scripts", .array [.string "sma 1", .string "ema 2"])]) [] := by
  have candles (rest : Text) := leaves_pairText (dojiText_begun "60" "1.0") (dojiText_begun "120" "2.0")
    (leaves_early 964) (leaves_late 964) rest
  have sma (rest : Text) : Leaves (value 965 (.char '\x22' :: .char 's' :: .char 'm' :: .char 'a' :: .char ' ' ::
      .char '1' :: .char '\x22' :: rest)) (.string "sma 1") rest := leaves_string ⟨_, rfl, rfl⟩
  have ema (rest : Text) : Leaves (value 965 (.char '\x22' :: .char 'e' :: .char 'm' :: .char 'a' :: .char ' ' ::
      .char '2' :: .char '\x22' :: rest)) (.string "ema 2") rest := leaves_string ⟨_, rfl, rfl⟩
  have spelled : Text.ofString postedBody = Text.ofString "\x7b\"candles\":" ++
      (Text.ofString (pairText (dojiText "60" "1.0") (dojiText "120" "2.0")) ++
        Text.ofString ",\"scripts\":[\"sma 1\",\"ema 2\"]\x7d") := by
    unfold postedBody
    simp only [Text.ofString_append]
    simp only [List.append_assoc]
  have deep : bodyDepth = 966 + 1 := rfl
  rw [spelled, deep]
  generalize pairText _ _ = pair at candles ⊢
  generalize front : Text.ofString "\x7b\"candles\":" = before
  generalize back : Text.ofString ",\"scripts\":[\"sma 1\",\"ema 2\"]\x7d" = behind
  conv at front => lhs; cbv
  conv at back => lhs; cbv
  subst front back
  refine leaves_object rfl (by decide) ?_
  refine leaves_more ⟨_, rfl, rfl⟩ rfl (candles _) rfl ?_
  exact leaves_last ⟨_, rfl, rfl⟩ rfl
    (leaves_array rfl (by decide) (leaves_moreItems (sma _) rfl (leaves_lastItem (ema _) rfl rfl))) rfl rfl

theorem textOfBody?_reversedChart : Encoding.textOfBody? reversedChart = .ok (Text.ofString reversedChart) := by
  obtain ⟨rest, begun⟩ : ∃ rest, reversedChart = "[" ++ "\x7b\"time\":" ++ rest := by
    unfold reversedChart pairText dojiText
    simp only [String.append_assoc]
    exact ⟨_, rfl⟩
  rw [begun]
  exact textOfBody?_of_front (by decide) (by decide) (by cbv)

theorem textOfBody?_postedBody : Encoding.textOfBody? postedBody = .ok (Text.ofString postedBody) := by
  unfold postedBody
  rw [String.append_assoc]
  exact textOfBody?_of_front (by decide) (by decide) (by cbv)

theorem reversedChart_provided : Reply.value? (.answered 200 reversedChart) replyDepth =
    .ok (.array [(doji 120 2.0).report, (doji 60 1.0).report]) := by
  have body : readBody reversedChart replyDepth = .ok _ :=
    readBody_of_leaves textOfBody?_reversedChart (leaves_reversedChart 960) rfl
  rw [Reply.value?, if_pos (by decide), body]
  rfl

theorem reversedChart_file :
    CommandLine.Files.read ⟨[("candles.json", reversedChart)]⟩ "candles.json" = .ok reversedChart := by
  have unified (text : Text) : CommandLine.Files.read ⟨[("candles.json", text)]⟩ "candles.json" =
      .ok (CommandLine.unifyLineEnds text) := by cbv
  rw [unified, unifyLineEnds_of_notMem (by decide +kernel)]

theorem reversedChart_holds :
    read reversedChart = .ok (.array [(doji 120 2.0).report, (doji 60 1.0).report]) :=
  read_of_leaves (leaves_reversedChart 978) rfl

theorem postedBody_given : body? postedBody =
    .ok (.object [("candles", .array [(doji 60 1.0).report, (doji 120 2.0).report]),
      ("scripts", .array [.string "sma 1", .string "ema 2"])]) := by
  rw [body?, if_neg (by decide +kernel), readBody_of_leaves textOfBody?_postedBody leaves_postedBody rfl]
  rfl

end Written

/-! ### Agreement -/

section Agreement
open Service

/-- What a chart and candles that are posted are answered, by what comes of the computation. -/
inductive Answered (cs : List (Candle Float)) :
    (outcome : Except OverlayError (Bundle Float)) → (chart posted : Answer) → Prop
  | success {bundle : Bundle Float} {chart posted : Json} :
    chart.field? "is_placeholder" = some (.bool false) →
    chart.field? "candles" = some (.array (cs.map Candle.report)) →
    (∀ name ∈ (["results", "markers", "next_color_index"] : List Text), chart.field? name = posted.field? name) →
    posted = withoutInfinities bundle.report →
    Answered cs (.ok bundle) (.success chart) (.success posted)
  | failure {e : OverlayError} : Answered cs (.error e) .crashed .crashed

/-- A bundle is answered with the fields of a chart and by itself. -/
theorem answered_of_computed {history : History Float} {bundle : Bundle Float} {r : ChartRequest} {symbol : String}
    (computed : overlays? history r.scripts r.colorIndex = .ok bundle) (sent : (r.query symbol).sent?.isSome)
    (finite : ∀ c ∈ history.candles, c.IsFinite) (times : ∀ c ∈ history.candles, InWord c.time)
    (low : -wordBound ≤ r.colorIndex) (high : r.colorIndex + lineCount r.scripts < wordBound) :
    Answered history.candles (.ok bundle)
      (send (.object (bundle.fields ++
        chartFields (r.query symbol) { candles := history.candles, isPlaceholder := false })))
      (send bundle.report) := by
  have candles : fits (.array (history.candles.map Candle.report)) = true :=
    fits_list fun c member => fits_candle (times c member)
  have timeframe : fits (.string (timeframeOf r.timeframe)) = true := fits_string.mpr (unbroken_of_sent rfl sent)
  have fields : fits (.object
      (chartFields (r.query symbol) { candles := history.candles, isPlaceholder := false })) = true := by
    have flag : fits (.bool false) = true := rfl
    simp only [chartFields, fits_field, ChartRequest.query, fits_fixed, timeframe, candles, flag, fits_empty,
      and_self]
  have alone : fits bundle.report = true := by
    have sendable := fits_bundle computed times low high fits_empty
    rwa [List.append_nil] at sendable
  rw [send, if_pos (fits_bundle computed times low high fields), send, if_pos alone]
  refine .success ?_ ?_ ?_ rfl
  · rw [field?_withoutInfinities]
    rfl
  · have unchanged :
        (history.candles.map Candle.report).map withoutInfinities = history.candles.map Candle.report := by
      rw [List.map_map]
      exact List.map_congr_left fun c member => withoutInfinities_candle (finite c member)
    rw [field?_withoutInfinities]
    show some (withoutInfinities (.array (history.candles.map Candle.report))) = _
    rw [withoutInfinities_array, unchanged]
  · intro name member
    have present : (bundle.fields.lookup name).isSome := by
      have named : name ∈ bundle.fields.map (·.1) := member
      obtain ⟨field, known, rfl⟩ := List.mem_map.mp named
      exact List.lookup_isSome_iff.mpr ⟨field, known, BEq.rfl⟩
    have front (others : List (Text × Json)) :
        (Json.object (bundle.fields ++ others)).field? name = (Json.object bundle.fields).field? name := by
      show (bundle.fields ++ others).lookup name = bundle.fields.lookup name
      rw [List.lookup_append, Option.or_of_isSome present]
    rw [field?_withoutInfinities, front, Bundle.report, field?_withoutInfinities]

/-- A chart of the provider, its candles posted back, and a file of the same payload come to the same overlays or
fail with the same error. -/
theorem surfaces_agree {payload posted : Json} {cs : List (Candle Float)} {r : ChartRequest} {symbol : String}
    {chartBody postBody : String} {reply : Reply} {files : CommandLine.Files} {args : List Text} {path text : Text}
    (world : Surroundings) (other : Reply)
    (read : Payload.candles? payload = .ok cs) (finite : ∀ c ∈ cs, c.IsFinite) (times : ∀ c ∈ cs, InWord c.time)
    (low : -wordBound ≤ r.colorIndex) (high : r.colorIndex + lineCount r.scripts < wordBound)
    (requested : checked? chartBody ChartRequest.read = .ok r) (sent : (r.query symbol).sent?.isSome)
    (provided : reply.value? replyDepth = .ok payload)
    (given : body? postBody = .ok posted) (reposts : Reposts r (.array (cs.map Candle.report)) posted)
    (parsed : CommandLine.Arguments.parse? args = some { candles := some path, scripts := r.scripts })
    (file : files.read path = .ok text) (holds : Json.read text = .ok payload) :
    ∃ (history : History Float) (outcome : Except OverlayError (Bundle Float)),
      history.candles = cs ∧ overlays? history r.scripts r.colorIndex = outcome ∧
      chartComputed? world reply symbol r =
        (fun bundle => ({ candles := cs, isPlaceholder := false }, bundle)) <$> outcome.mapError .overlay ∧
      (∃ r', checked? postBody OverlayRequest.read = .ok r' ∧
        computed? r'.candles r'.scripts r'.colorIndex = outcome.mapError .overlay) ∧
      (r.colorIndex = 0 → (CommandLine.execute files world other args).outcome = .ofOverlays outcome) ∧
      (∀ e, (CommandLine.execute files world other args).outcome = .failed (.overlay e) ↔ outcome = .error e) ∧
      Answered cs outcome (handleRoute world reply chartBody (.chart symbol)).answer
        (handleRoute world other postBody .overlays).answer := by
  -- the surfaces differ in how they come to candles; from there on it is one computation
  obtain ⟨history, formed, rfl⟩ := ofCandles?_ok_iff.mpr (Payload.candles?_ordered read)
  have computed (scripts : List Text) (colorIndex : Int) : computed? history.candles scripts colorIndex =
      (overlays? history scripts colorIndex).mapError .overlay := by
    rw [computed?, formed]
    rfl
  have chart : chartComputed? world reply symbol r =
      (fun bundle => ({ candles := history.candles, isPlaceholder := false }, bundle)) <$>
        (overlays? history r.scripts r.colorIndex).mapError .overlay := by
    rw [chartComputed?, load_of_provided world sent provided read]
    simp only [Except.mapError, ok_bind, computed]
    cases overlays? history r.scripts r.colorIndex <;> rfl
  have again := checked?_of_read given (read_of_reposts reposts)
  have printed : (CommandLine.execute files world other args).outcome =
      .ofOverlays (overlays? history r.scripts 0) := by
    rw [CommandLine.execute_of_read parsed file holds read, CommandLine.compute_eq, computed]
    cases overlays? history r.scripts 0 <;> rfl
  refine ⟨history, _, rfl, rfl, chart, ⟨_, again, computed _ _⟩, ?_, ?_, ?_⟩
  · intro zero
    rw [printed, zero]
  · intro e
    rw [printed, overlays?_error_congr r.colorIndex 0]
    cases overlays? history r.scripts 0 <;> simp [CommandLine.Outcome.ofOverlays]
  · have asked : (handleRoute world reply chartBody (.chart symbol)).answer =
        settle (chartAnswer world reply symbol r) := by
      rw [handleRoute, requested]
    have reasked : (handleRoute world other postBody .overlays).answer =
        settle (overlayAnswer { candles := history.candles, scripts := r.scripts, colorIndex := r.colorIndex }) := by
      rw [handleRoute, again]
      rfl
    rw [asked, reasked, chartAnswer_eq, chart, overlayAnswer_eq, computed]
    cases outcome : overlays? history r.scripts r.colorIndex with
    | error e => exact .failure
    | ok bundle => exact answered_of_computed outcome sent finite times low high

/-- A chart of candles that the provider has in reverse order, the candles posted back in theirs and a file as the
provider has it come to the same overlays, in the order of the scripts. -/
theorem surfaces_agree_of_reversed :
    let world : Surroundings := { now := 0, draws := fun _ => 0.5 }
    ∃ (bundle : Bundle Float) (chart posted : Json),
      (handleRoute world (.answered 200 reversedChart) "\x7b\"scripts\":[\"sma 1\",\"ema 2\"]\x7d"
        (.chart "BBCA")).answer = .success chart ∧
      (handleRoute world (.failed "ConnectError") postedBody .overlays).answer = .success posted ∧
      (∀ name ∈ (["results", "markers", "next_color_index"] : List Text),
        chart.field? name = posted.field? name) ∧
      chart.field? "candles" = some (.array [(doji 60 1.0).report, (doji 120 2.0).report]) ∧
      bundle.results.map (·.name) = (["SMA 1", "EMA 2"] : List Text) ∧
      (CommandLine.execute ⟨[("candles.json", reversedChart)]⟩ world (.failed "ConnectError")
        ["--candles", "candles.json", "--script", "sma 1", "--script", "ema 2"]).outcome =
          .printed { bundle, isPlaceholder := false } := by
  intro world
  have read : Payload.candles? (.array [(doji 120 2.0).report, (doji 60 1.0).report]) =
      .ok [doji 60 1.0, doji 120 2.0] := rfl
  have finite : ∀ c ∈ [doji 60 1.0, doji 120 2.0], c.IsFinite :=
    List.forall_mem_cons.mpr ⟨⟨rfl, rfl, rfl, rfl, nofun⟩, List.forall_mem_singleton.mpr ⟨rfl, rfl, rfl, rfl, nofun⟩⟩
  have times : ∀ c ∈ [doji 60 1.0, doji 120 2.0], InWord c.time :=
    List.forall_mem_cons.mpr ⟨⟨by decide, by decide⟩, List.forall_mem_singleton.mpr ⟨by decide, by decide⟩⟩
  have requested : checked? "\x7b\"scripts\":[\"sma 1\",\"ema 2\"]\x7d" ChartRequest.read =
      .ok { scripts := ["sma 1", "ema 2"], timeframe := none, colorIndex := 0 } := by cbv
  have sent : (({ scripts := ["sma 1", "ema 2"], timeframe := none, colorIndex := 0 } : ChartRequest).query
      "BBCA").sent?.isSome := by cbv
  have parsed : CommandLine.Arguments.parse?
      ["--candles", "candles.json", "--script", "sma 1", "--script", "ema 2"] =
      some { candles := some "candles.json", scripts := ["sma 1", "ema 2"] } := by cbv
  obtain ⟨⟨_, ordered⟩, _, rfl, rfl, -, -, printed, -, answered⟩ := surfaces_agree world (.failed "ConnectError") read
    finite times (by decide) (by decide) requested sent reversedChart_provided postedBody_given
    ⟨rfl, rfl, rfl, rfl⟩ parsed reversedChart_file reversedChart_holds
  have names : (overlays? dojis ["sma 1", "ema 2"] 0).toOption.map (fun b => b.results.map (·.name)) =
      some (["SMA 1", "EMA 2"] : List Text) := by decide +kernel
  cases computed : overlays? dojis ["sma 1", "ema 2"] 0 with
  | error e =>
    rw [computed] at names
    cases names
  | ok bundle =>
    rw [computed] at names
    replace computed : overlays? ⟨[doji 60 1.0, doji 120 2.0], ordered⟩ ["sma 1", "ema 2"] 0 = .ok bundle := computed
    rw [computed] at printed answered
    generalize (handleRoute _ _ _ (.chart _)).answer = charted at answered ⊢
    generalize (handleRoute _ _ _ .overlays).answer = posted at answered ⊢
    cases answered with
    | success _ candles same _ =>
      exact ⟨bundle, _, _, rfl, rfl, same, candles, Option.some.inj names, printed rfl⟩

end Agreement

end ChartOverlay
