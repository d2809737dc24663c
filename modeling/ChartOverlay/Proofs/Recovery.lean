import ChartOverlay.CommandLine.Run
import ChartOverlay.Proofs.PayloadErrors

/-!
# Recovery

A feed puts placeholder candles in the place of what a provider fails to answer, and a run ends with an exit
code where a file has no candles. `recovers_iff` says exactly when they do: an error is let through where the
asker is at fault, where a text is too deep, and where a payload upsets its reading.
-/

namespace ChartOverlay

/-! ### Replies -/

/-- The failure lies with the one who asks, the body is too deep or what it holds upsets its reading. -/
def Reply.Upsets (depth : Nat) : Reply → Prop
  | .failed kind => kind ∈ ExchangeError.askerFailures
  | .answered status body => (200 ≤ status ∧ status ≤ 299) ∧
      ((∃ nest, Json.readBody body depth = .error (.unacceptable (.tooDeep nest))) ∨
        ∃ payload, Json.readBody body depth = .ok payload ∧ Payload.Upsets payload)
  | .unwritten _ => False

theorem readBody_escapes {body : String} {depth : Nat} :
    Escapes (ExchangeError.isRecoverable ∘ .ofBody) (Json.readBody body depth) ↔
      ∃ nest, Json.readBody body depth = .error (.unacceptable (.tooDeep nest)) := by
  cases Json.readBody body depth with
  | ok payload => simp
  | error e =>
    rcases e with e | e
    · simp [ExchangeError.ofBody, ExchangeError.isRecoverable]
    · cases e <;> simp [ExchangeError.ofBody, ExchangeError.isRecoverable]

namespace ChartQuery

/-- The timeframe cannot be looked up or the reply to the request upsets its reading. -/
def Upsets (query : ChartQuery) (reply : Reply) (depth : Nat) : Prop :=
  query.timeframe.HasParts ∨ query.sent?.isSome ∧ reply.Upsets depth

/-- The candles that a payload of the provider holds. -/
def Provides (query : ChartQuery) (reply : Reply) (depth : Nat) (candles : List (Candle Float)) : Prop :=
  query.sent?.isSome ∧ ∃ payload, reply.value? depth = .ok payload ∧ Payload.candles? payload = .ok candles

variable {query : ChartQuery} {reply : Reply} {depth : Nat}

theorem chart?_error_iff : (∃ e, ProxyRequest.chart? query = .error e) ↔ query.timeframe.HasParts := by
  cases kind : query.timeframe <;>
    simp [ProxyRequest.chart?, providerTimeframe?, kind, Json.HasParts, pure, Except.pure]

/-- A query is refused, its request cannot be sent, or the reply to it is read. -/
theorem candles?_cases (query : ChartQuery) (reply : Reply) (depth : Nat) :
    (query.timeframe.HasParts ∧ query.sent? = none ∧ ∃ e, query.candles? reply depth = .error (.query e)) ∨
    (¬ query.timeframe.HasParts ∧ query.sent? = none ∧
      ∃ e, query.candles? reply depth = .error (.exchange (.unsendable e))) ∨
    (¬ query.timeframe.HasParts ∧ query.sent?.isSome ∧ query.candles? reply depth =
      (reply.value? depth).mapError .exchange >>= fun payload =>
        (Payload.candles? payload).mapError .payload) := by
  rw [← chart?_error_iff, sent?, candles?]
  cases ProxyRequest.chart? query with
  | error e => exact .inl ⟨⟨e, rfl⟩, rfl, e, rfl⟩
  | ok request =>
    have asked : ¬ ∃ e, (.ok request : Except QueryError ProxyRequest) = .error e := by simp
    cases unsendable : request.sendError? with
    | some e =>
      refine .inr (.inl ⟨asked, ?_, e, ?_⟩)
      · simp [Except.toOption, unsendable]
      · simp [Except.mapError, unsendable, throw, throwThe, MonadExceptOf.throw]
    | none =>
      refine .inr (.inr ⟨asked, ?_, ?_⟩)
      · simp [Except.toOption, unsendable]
      · simp [Except.mapError, unsendable]

theorem candles?_of_sent (sent : query.sent?.isSome) :
    query.candles? reply depth =
      (reply.value? depth).mapError .exchange >>= fun payload =>
        (Payload.candles? payload).mapError .payload := by
  rcases candles?_cases query reply depth with ⟨_, unsent, _⟩ | ⟨_, unsent, _⟩ | ⟨_, _, read⟩
  · simp [unsent] at sent
  · simp [unsent] at sent
  · exact read

theorem value?_escapes :
    Escapes ExchangeError.isRecoverable (reply.value? depth) ∨
        (∃ payload, reply.value? depth = .ok payload ∧ Payload.Upsets payload) ↔
      reply.Upsets depth := by
  cases reply with
  | failed kind => simp [Reply.value?, Reply.Upsets, ExchangeError.isRecoverable]
  | unwritten e => simp [Reply.value?, Reply.Upsets, ExchangeError.isRecoverable]
  | answered status body =>
    by_cases fine : 200 ≤ status ∧ status ≤ 299
    · simp [Reply.value?, Reply.Upsets, fine, escapes_mapError, readBody_escapes, mapError_ok_iff]
    · simp [Reply.value?, Reply.Upsets, fine, ExchangeError.isRecoverable]

theorem candles?_escapes :
    Escapes LoadError.isRecoverable (query.candles? reply depth) ↔ query.Upsets reply depth := by
  rcases candles?_cases query reply depth with
    ⟨parts, unsent, e, read⟩ | ⟨plain, unsent, e, read⟩ | ⟨plain, sent, read⟩
  · simp [read, Upsets, parts, LoadError.isRecoverable]
  · simp [read, Upsets, plain, unsent, LoadError.isRecoverable, ExchangeError.isRecoverable]
  · simp [read, Upsets, plain, sent, escapes_bind, escapes_mapError, mapError_ok_iff, ← value?_escapes,
      ← Payload.candles?_escapes, LoadError.isRecoverable, Function.comp_def]

theorem candles?_ok_iff {candles : List (Candle Float)} :
    query.candles? reply depth = .ok candles ↔ query.Provides reply depth candles := by
  rcases candles?_cases query reply depth with
    ⟨parts, unsent, e, read⟩ | ⟨plain, unsent, e, read⟩ | ⟨plain, sent, read⟩
  · simp [read, Provides, unsent]
  · simp [read, Provides, unsent]
  · rw [read, Provides]
    constructor
    · intro h
      obtain ⟨payload, got, h⟩ := bind_ok h
      exact ⟨sent, payload, mapError_ok_iff.mp got, mapError_ok_iff.mp h⟩
    · rintro ⟨_, payload, got, h⟩
      rw [mapError_ok_iff.mpr got, ok_bind, mapError_ok_iff.mpr h]

end ChartQuery

namespace Feed

variable {feed : Feed} {world : Surroundings} {query : ChartQuery} {reply : Reply}

/-- What is to be loaded: the candles of the provider or, where it has none, placeholder candles. -/
structure Answers (feed : Feed) (world : Surroundings) (query : ChartQuery) (reply : Reply) (loaded : Loaded) :
    Prop where
  provided : ∀ candles, query.Provides reply world.depth candles →
    loaded.candles = candles ∧ loaded.isPlaceholder = false
  placeholder : (∀ candles, ¬ query.Provides reply world.depth candles) →
    loaded.candles = placeholderCandles query.symbol feed.fallbackCount world.now
      (fun k => world.draws (feed.drawn + k)) ∧
    (0 ≤ feed.fallbackCount → (loaded.candles.length : Int) = feed.fallbackCount + 1) ∧
    loaded.isPlaceholder = true

theorem length_walk {α : Type} [Arith α] (draws : Draws α) (now : Int) (left k : Nat) (price : α) :
    (walk draws now left k price).length = left := by
  induction left generalizing k price with
  | zero => rfl
  | succ left ih => rw [walk, List.length_cons, ih]

theorem load_answers_iff :
    (∃ loaded, (feed.load world query reply).2 = .ok loaded ∧ feed.Answers world query reply loaded) ↔
      ¬ query.Upsets reply world.depth := by
  rw [← ChartQuery.candles?_escapes, load]
  cases read : query.candles? reply world.depth with
  | ok candles =>
    have provided := ChartQuery.candles?_ok_iff.mp read
    refine iff_of_true ⟨_, rfl, ?_, fun unprovided => (unprovided _ provided).elim⟩ (not_escapes_ok _)
    intro other h
    have same := read.symm.trans (ChartQuery.candles?_ok_iff.mpr h)
    exact ⟨Except.ok.inj same, rfl⟩
  -- without candles of the provider it is the error that decides whether any stand in
  | error e =>
    have unprovided : ∀ candles, ¬ query.Provides reply world.depth candles := by
      intro candles h
      cases read.symm.trans (ChartQuery.candles?_ok_iff.mpr h)
    cases passed : e.isRecoverable with
    | true =>
      refine iff_of_true ?_ (by simp [passed])
      simp only [passed, if_true]
      refine ⟨_, rfl, fun candles h => (unprovided candles h).elim, fun _ => ⟨rfl, ?_, rfl⟩⟩
      intro nonneg
      rw [placeholderCandles, length_walk, placeholderCount]
      omega
    | false => simp [passed]

end Feed

namespace CommandLine

variable {files : Files} {path : Text} {scripts : List Text}

/-- A file of candles is too deep or what it holds upsets its reading. -/
def Upsets (files : Files) (path : Text) : Prop :=
  ∃ text, files.read path = .ok text ∧ ((∃ nest, Json.read text = .error (.tooDeep nest)) ∨
    ∃ payload, Json.read text = .ok payload ∧ Payload.Upsets payload)

/-- Whether a run over a file without candles ends with an exit code. -/
def CandleFileError.isRecoverable : CandleFileError → Bool
  | file _ => true
  | malformed (.tooDeep _) => false
  | malformed _ => true
  | payload e => e.isRecoverable

theorem candlesOfFile?_escapes :
    Escapes CandleFileError.isRecoverable (candlesOfFile? files path) ↔ Upsets files path := by
  -- of the three steps each adds its own kind of error, and a missing file is never let through
  have malformed (text : Text) : Escapes (CandleFileError.isRecoverable ∘ .malformed) (Json.read text) ↔
      ∃ nest, Json.read text = .error (.tooDeep nest) := by
    cases Json.read text with
    | ok payload => simp
    | error e => cases e <;> simp [CandleFileError.isRecoverable]
  have files : ¬ Escapes (CandleFileError.isRecoverable ∘ .file) (files.read path) := by
    rintro ⟨e, _, h⟩
    cases h
  unfold candlesOfFile?
  simp only [escapes_bind, escapes_mapError, mapError_ok_iff, malformed, files, false_or, Upsets,
    ← Payload.candles?_escapes]
  rfl

theorem runFile_iff :
    (match candlesOfFile? files path with
      | .ok candles => runFile files path scripts = compute candles scripts false
      | .error _ => runFile files path scripts = .exit 1 []) ↔ ¬ Upsets files path := by
  rw [← candlesOfFile?_escapes, runFile]
  cases candlesOfFile? files path with
  | ok candles => simp
  | error e =>
    rcases e with e | e | e
    · simp [CandleFileError.isRecoverable]
    · cases e <;> simp [CandleFileError.isRecoverable]
    · cases passed : e.isRecoverable <;> simp [CandleFileError.isRecoverable, passed]

end CommandLine

/-- A load has its candles or placeholder candles, and a run over a file an answer or an exit code, except
where the one who asks is at fault, where a text is too deep or where a payload upsets its reading. -/
theorem recovers_iff (feed : Feed) (world : Surroundings) (query : ChartQuery) (reply : Reply) (payload : Json)
    (files : CommandLine.Files) (path : Text) (scripts : List Text) :
    ((∃ loaded, (feed.load world query reply).2 = .ok loaded ∧ feed.Answers world query reply loaded) ↔
      ¬ query.Upsets reply world.depth) ∧
    ((∀ e, Payload.candles? payload = .error e → e.isRecoverable) ↔ ¬ Payload.Upsets payload) ∧
    ((match CommandLine.candlesOfFile? files path with
      | .ok candles => CommandLine.runFile files path scripts = CommandLine.compute candles scripts false
      | .error _ => CommandLine.runFile files path scripts = .exit 1 []) ↔
      ¬ CommandLine.Upsets files path) := by
  refine ⟨Feed.load_answers_iff, ?_, CommandLine.runFile_iff⟩
  rw [← Payload.candles?_escapes, Escapes]
  simp

/-! ### A volume with parts -/

/-- A payload of one record whose volume is a list. -/
def listedVolume : String :=
  "[\x7b\"time\":\"2024-01-02\",\"open\":\"1.5\",\"high\":\"1.5\",\"low\":\"1.5\",\"close\":\"1.5\"," ++
  "\"volume\":[]\x7d]"

def listedVolumeItem : Json := .object
  [("time", .string "2024-01-02"), ("open", .string "1.5"), ("high", .string "1.5"), ("low", .string "1.5"),
   ("close", .string "1.5"), ("volume", .array [])]

theorem listedVolumeItem_time? : ∃ t, Payload.time? listedVolumeItem = .ok t := by
  -- that there is a time is enough here: its value would take the arithmetic of doubles
  have dated : (Instant.micros? "2024-01-02").isSome := by cbv
  obtain ⟨micros, dated⟩ := Option.isSome_iff_exists.mp dated
  have read : Instant.seconds? "2024-01-02" = some (Double.trunc (Double.nearest micros 1000000)) := by
    rw [Instant.seconds?, dated]
    rfl
  have named : Payload.time? listedVolumeItem = Payload.namedTime? (.string "2024-01-02") := rfl
  exact ⟨_, by rw [named, Payload.namedTime?, read]⟩

theorem listedVolumeItem_candles? :
    Payload.candles? (.array [listedVolumeItem]) = .error (.volumeType "list") := by
  obtain ⟨t, time⟩ := listedVolumeItem_time?
  have item : Payload.candle? false listedVolumeItem = .error (.volumeType "list") := by
    unfold Payload.candle?
    rw [time]
    rfl
  show ([listedVolumeItem].mapM (Payload.candle? false) >>= fun cs => _) = _
  rw [List.mapM_cons, item]
  rfl

/-- No candles stand in for the payload, and a file that holds it ends the run. -/
theorem load_listedVolume :
    (Feed.load { fallbackCount := 0 } { now := 0, draws := fun _ => 0.5 } { symbol := "BBCA" }
      (.answered 200 listedVolume)).2 = .error (.payload (.volumeType "list")) ∧
    CommandLine.runFile ⟨[("candles.json", listedVolume)]⟩ "candles.json" [] =
      .failed (.load (.payload (.volumeType "list"))) := by
  constructor
  · have body : Json.readBody listedVolume = .ok (.array [listedVolumeItem]) := by cbv
    have value : Reply.value? (.answered 200 listedVolume) = .ok (.array [listedVolumeItem]) := by
      rw [Reply.value?, if_pos (by decide), body]
      rfl
    have sent : ({ symbol := "BBCA" } : ChartQuery).sent?.isSome := by cbv
    have read : ({ symbol := "BBCA" } : ChartQuery).candles? (.answered 200 listedVolume) =
        .error (.payload (.volumeType "list")) := by
      rw [ChartQuery.candles?_of_sent sent, value]
      simp [Except.mapError, listedVolumeItem_candles?]
    rw [Feed.load, read]
    rfl
  · have found :
        CommandLine.Files.read ⟨[("candles.json", listedVolume)]⟩ "candles.json" = .ok listedVolume := by cbv
    have read : Json.read listedVolume = .ok (.array [listedVolumeItem]) := by cbv
    rw [CommandLine.runFile, CommandLine.candlesOfFile?, found]
    simp [Except.mapError, read, listedVolumeItem_candles?, PayloadError.isRecoverable]

end ChartOverlay
