import ChartOverlay.Proofs.Grammar

/-!
# Names within longer names

A call is found wherever its name ends, also at the end of a longer name. A short form begins with its name, so it has
none before it: in a line whose names of indicators are all parts of longer names, only the calls count
(`ofLine?_none_iff_of_embedded`).
-/

namespace ChartOverlay

open Scanner

/-- Wherever a text spells a name, a letter, a digit or an underscore stands before it. -/
def IsEmbedded (name : String) (line : Text) : Prop :=
  ∀ front word rest, line = front ++ (word ++ rest) → Spells name word → ∃ c ∈ front.getLast?, isWord c = true

theorem isEmbedded_iff {name : String} {line : Text} : IsEmbedded name line ↔
    ∀ i ∈ List.range (line.length + 1), ((word name).read? (line.drop i)).isSome →
      ∃ c ∈ (line.take i).getLast?, isWord c = true := by
  constructor
  · intro embedded i _ read
    obtain ⟨w, found⟩ := Option.isSome_iff_exists.mp read
    obtain ⟨rest, scanned⟩ := read?_iff.mp found
    obtain ⟨spells, split⟩ := word_iff.mp scanned
    apply embedded (line.take i) w rest ?_ spells
    rw [← split, List.take_append_drop]
  · intro marked front w rest split spells
    have here := marked front.length (by simp [split])
    rw [split, List.drop_left, List.take_left] at here
    apply here
    exact Option.isSome_iff_exists.mpr ⟨w, read?_iff.mpr ⟨rest, word_iff.mpr ⟨spells, rfl⟩⟩⟩

instance (name : String) (line : Text) : Decidable (IsEmbedded name line) :=
  decidable_of_iff _ isEmbedded_iff.symm

theorem starts_of_spaced {least : Nat} {part : Text} {parts : List Text} {t rest : Text}
    (h : Spaced least (part :: parts) t rest) : ∃ u, t = part ++ u := by
  rcases parts with _ | ⟨next, parts⟩
  · exact ⟨rest, h⟩
  · obtain ⟨b, u, -, split, -⟩ := h
    exact ⟨b.1 ++ u, split⟩

section Embedded
variable {name : String} {line : Text}

theorem IsEmbedded.not_spells (embedded : IsEmbedded name line) {word rest : Text} (split : line = word ++ rest) :
    ¬Spells name word := by
  intro spells
  obtain ⟨c, last, -⟩ := embedded [] word rest split spells
  cases last

theorem IsEmbedded.not_isShort (embedded : IsEmbedded name line) {kinds : List (Text → Prop)} {numbers : List Text} :
    ¬IsShort Spells name kinds numbers line := by
  rintro ⟨-, word, rest, named, spaced, -⟩
  obtain ⟨u, split⟩ := starts_of_spaced spaced
  exact embedded.not_spells split named

end Embedded

namespace Grammar

/-- The calls that a line is searched for. -/
def callShapes : List (String × List (Text → Prop)) :=
  [("sma", [IsNumber]), ("ema", [IsNumber]), ("rsi", [IsNumber]), ("macd", [IsNumber, IsNumber, IsNumber]),
   ("bb", [IsNumber, IsDecimal])]

theorem asked_eq_none_iff {line : Text} : Asked.ofLine? line = none ↔
    (∀ call ∈ callShapes, ¬Stands (IsCall Spells call.1 call.2) line) ∧
      Short.one.read? line = none ∧ Short.macd.read? line = none ∧ Short.bands.read? line = none := by
  have sma := @search_one_eq_none_iff line "sma" ⟨'s', rfl, by decide⟩
  have ema := @search_one_eq_none_iff line "ema" ⟨'e', rfl, by decide⟩
  have rsi := @search_one_eq_none_iff line "rsi" ⟨'r', rfl, by decide⟩
  simp only [callShapes, List.forall_mem_cons, List.not_mem_nil, false_implies, implies_true, and_true, ← sma, ← ema,
    ← rsi, ← search_macd_eq_none_iff, ← search_bands_eq_none_iff]
  unfold Asked.ofLine?
  cases search (Call.one "sma") line with
  | some _ => simp
  | none =>
  cases search (Call.one "ema") line with
  | some _ => simp
  | none =>
  cases search (Call.one "rsi") line with
  | some _ => simp
  | none =>
  cases search Call.macd line with
  | some _ => simp
  | none =>
  cases search Call.bands line with
  | some _ => simp
  | none =>
  cases Short.one.read? line with
  | some _ => simp
  | none =>
  cases Short.macd.read? line with
  | some _ => simp
  | none =>
  cases Short.bands.read? line with
  | some _ => simp
  | none => simp

section Embedded
variable {line : Text} (embedded : ∀ kind : IndicatorKind, IsEmbedded kind.name line)
include embedded

theorem shorts_none : Short.one.read? line = none ∧ Short.macd.read? line = none ∧ Short.bands.read? line = none := by
  refine ⟨?_, ?_, ?_⟩
  · rw [Option.eq_none_iff_forall_ne_some]
    rintro ⟨word, n⟩ read
    obtain ⟨-, named, rest, spaced, -⟩ := Short.read?_one_iff.mp read
    obtain ⟨u, split⟩ := starts_of_spaced spaced
    rcases named with sma | ema | rsi
    · exact (embedded .sma).not_spells split sma
    · exact (embedded .ema).not_spells split ema
    · exact (embedded .rsi).not_spells split rsi
  · rw [Option.eq_none_iff_forall_ne_some]
    rintro ⟨fast, slow, signal⟩ read
    exact (embedded .macd).not_isShort (Short.read?_macd_iff.mp read)
  · rw [Option.eq_none_iff_forall_ne_some]
    rintro ⟨bars, width⟩ read
    exact (embedded .bb).not_isShort (Short.read?_bands_iff.mp read)

end Embedded

/-- A line whose names of indicators are all parts of longer names asks for nothing exactly if no call stands in it;
otherwise it asks for what the first call says that stands in it, as if the name of the function began there. -/
theorem ofLine?_none_iff_of_embedded {line : Text} (embedded : ∀ kind : IndicatorKind, IsEmbedded kind.name line) :
    ((Descriptor.ofLine? line : Except ScriptError (Option (Descriptor Float))) = .ok none ↔
      ∀ call ∈ callShapes, ¬Stands (IsCall Spells call.1 call.2) line) ∧
    (IsOrdinary line → ∃ r, Descriptor.ofLine? line = .ok r ∧ ∀ r', First (callRules line) r' ↔ r' = r) := by
  have ⟨one, macd, bands⟩ := shorts_none embedded
  constructor
  · rw [Asked.ofLine?_eq]
    have unasked : (Asked.ofLine? line).mapM Asked.descriptor? = .ok none ↔ Asked.ofLine? line = none := by
      cases Asked.ofLine? line with
      | none => exact iff_of_true rfl rfl
      | some asked =>
        refine iff_of_false (fun h => ?_) nofun
        obtain ⟨d, -, same⟩ := map_ok h
        cases same
    simp [unasked, asked_eq_none_iff, one, macd, bands]
  · intro ordinary
    have silent : (foundShorts line).findSome? id = none := by
      simp [foundShorts, one, macd, bands]
    refine ⟨_, ofLine?_eq ordinary, fun r' => ?_⟩
    rw [List.findSome?_append, silent, Option.or_none]
    exact first_iff (callRules_iff ordinary)

/-- An average of averages, and an oscillator of another indicator. -/
def longerNames : Text := "plot(tema(close, 9)) // stoch_rsi(close, 14)"

theorem ofLine?_none_iff_of_longerNames : (∀ kind : IndicatorKind, IsEmbedded kind.name longerNames) ∧
    (¬∀ call ∈ callShapes, ¬Stands (IsCall Spells call.1 call.2) longerNames) ∧
    First (callRules longerNames) (some { name := "EMA 9", kind := .ema, params := [("period", 9.0)] }) := by
  have embedded : ∀ kind : IndicatorKind, IsEmbedded kind.name longerNames := by
    intro kind
    cases kind <;> decide +kernel
  have read : Descriptor.ofLine? longerNames =
      .ok (some { name := "EMA 9", kind := .ema, params := [("period", (9.0 : Float))] }) := by
    decide +kernel
  have ⟨silent, decided⟩ := ofLine?_none_iff_of_embedded embedded
  refine ⟨embedded, ?_, ?_⟩
  · rw [← silent, read]
    exact nofun
  · obtain ⟨r, read', only⟩ := decided (isOrdinary_of_length (by decide) (by decide))
    exact (only _).mpr (Except.ok.inj (read.symm.trans read'))

/-- A double average is drawn as a plain one, although no name in the line is that of an indicator. -/
theorem ofLine?_doubleAverage : (∀ kind : IndicatorKind, IsEmbedded kind.name "dema(close, 20)") ∧
    Descriptor.ofLine? "dema(close, 20)" =
      .ok (some { name := "EMA 20", kind := .ema, params := [("period", (20.0 : Float))] }) := by
  refine ⟨fun kind => ?_, by decide +kernel⟩
  cases kind <;> decide +kernel

end Grammar

end ChartOverlay
