import ChartOverlay.Proofs.Descriptors
import ChartOverlay.Proofs.DoubleRange
import ChartOverlay.Script.Template

/-!
# Which scripts are read

A line that asks for nothing is passed over. A line that asks for something is read if its numbers are not too long
and not too large, and its keyword is spelled in ASCII; otherwise it ends the reading of its script, and the lines
after it count for nothing. `ofText?_ok_iff` says which scripts are read.
-/

namespace ChartOverlay

open Arith

/-! ### Keywords -/

def Text.IsAscii (t : Text) : Prop := ∀ c ∈ t, c.code < 128

theorem code_map_toLower {c : CodePoint} (h : (c.map Char.toLower).code < 128) : c.code < 128 := by
  cases c with
  | half offset => exact h
  | char c =>
    rw [CodePoint.map, CodePoint.code, Char.toLower] at h
    split at h
    · rename_i upper
      show c.toNat < 128
      have top : c.toNat ≤ 90 := upper.2
      omega
    · exact h

theorem map_toLower_of_standsFor {letter : Char} {c : CodePoint} (ascii : c.code < 128)
    (h : Scanner.standsFor letter c = true) : c.map Char.toLower = letter := by
  have other {d : Char} (beyond : 128 ≤ d.toNat) : c ≠ d := by
    rintro rfl
    exact absurd ascii (Nat.not_lt.mpr beyond)
  have long : c ≠ 'ſ' := other (by decide)
  have dotted : c ≠ 'İ' := other (by decide)
  have dotless : c ≠ 'ı' := other (by decide)
  simpa [Scanner.standsFor, long, dotted, dotless] using h

namespace Descriptor

theorem lowered_cons (c : CodePoint) (t : Text) :
    lowered (c :: t) = (if c = 'İ' then ['i', '\u0307'] else [c.map Char.toLower] : Text) ++ lowered t :=
  List.flatMap_cons

/-- No letter becomes one of ASCII when it is made small. -/
theorem isAscii_of_lowered {word : Text} (h : (lowered word).IsAscii) : word.IsAscii := by
  induction word with
  | nil => exact nofun
  | cons c rest ih =>
    rw [lowered_cons] at h
    intro d member
    rcases List.mem_cons.mp member with rfl | later
    · by_cases dotted : d = 'İ'
      · rw [if_pos dotted] at h
        exact absurd (h '\u0307' (by simp)) (by decide)
      · rw [if_neg dotted] at h
        exact code_map_toLower (h _ (by simp))
    · exact ih (fun x inside => h x (List.mem_append_right _ inside)) d later

theorem lowered_of_spells {letters : String} {word : Text} (spells : Scanner.Spells letters word)
    (ascii : word.IsAscii) : lowered word = letters := by
  show lowered word = letters.toList.map CodePoint.char
  unfold Scanner.Spells at spells
  generalize letters.toList = row at spells ⊢
  induction spells with
  | nil => rfl
  | @cons letter c row rest first _ ih =>
    have here := ascii c List.mem_cons_self
    have plain : c ≠ 'İ' := by
      rintro rfl
      exact absurd here (by decide)
    rw [lowered_cons, if_neg plain, map_toLower_of_standsFor here first,
      ih fun d member => ascii d (List.mem_cons_of_mem c member)]
    rfl

/-- A keyword names a kind of indicator exactly if it is spelled in ASCII. -/
theorem ofName?_lowered {letters : String} {word : Text} (known : letters ∈ shortNames)
    (spells : Scanner.Spells letters word) :
    (∃ kind, IndicatorKind.ofName? (lowered word) = some kind) ↔ word.IsAscii := by
  constructor
  · rintro ⟨kind, named⟩
    have same : kind.name = lowered word := by simpa using List.find?_some named
    have plain : ∀ kind : IndicatorKind, Text.IsAscii kind.name := by
      intro kind
      cases kind <;> (unfold Text.IsAscii; decide)
    exact isAscii_of_lowered (same ▸ plain kind)
  · intro ascii
    rw [lowered_of_spells spells ascii]
    have all : ∀ letters ∈ shortNames, (IndicatorKind.ofName? letters).isSome := by decide
    exact Option.isSome_iff_exists.mp (all letters known)

/-! ### Numbers -/

theorem whole?_ok_iff {digits : Text} {n : Nat} :
    whole? digits = .ok n ↔ digits.length ≤ maxDigits ∧ digitsValue digits = n := by
  unfold whole?
  split
  · rename_i long
    simp [Nat.not_le.mpr long]
  · rename_i short
    simp [Nat.not_lt.mp short]

theorem params?_ok_iff {given : List (Text × Nat)} :
    (∃ ps, (params? given : Except ScriptError (List (Text × Float))) = .ok ps) ↔
      ∀ p ∈ given, p.2 < Double.limit := by
  have finite (p : Text × Nat) : isFinite (ofInt p.2 : Float) = true ↔ p.2 < Double.limit :=
    (Double.isFinite_ofInt p.2).trans Nat.not_le
  unfold params?
  dsimp only
  split
  · rename_i sound
    rw [List.isEmpty_iff, List.filterMap_eq_nil_iff] at sound
    refine iff_of_true ⟨_, rfl⟩ fun p member => (finite p).mp ?_
    by_contra infinite
    simpa [infinite] using sound p member
  · rename_i broken
    refine iff_of_false nofun fun small => broken ?_
    rw [List.isEmpty_iff, List.filterMap_eq_nil_iff]
    intro p member
    exact if_pos ((finite p).mpr (small p member))

end Descriptor

/-! ### Lines -/

/-- What a line asks for, before its numbers and its keyword are read. -/
inductive Asked
  | single (kind : IndicatorKind) (digits : Text) (color : Option Text)
  | macd (fast slow signal : Text) (color : Option Text)
  | bands (bars width : Text) (color : Option Text)
  | short (word digits : Text)

namespace Asked
open Descriptor

def ofLine? (line : Text) : Option Asked :=
  if let some digits := Scanner.search (Call.one "sma") line then some (.single .sma digits (lineColor? line))
  else if let some digits := Scanner.search (Call.one "ema") line then some (.single .ema digits (lineColor? line))
  else if let some digits := Scanner.search (Call.one "rsi") line then some (.single .rsi digits (some "#AB47BC"))
  else if let some (fast, slow, signal) := Scanner.search Call.macd line then
    some (.macd fast slow signal (some "#2196F3"))
  else if let some (bars, width) := Scanner.search Call.bands line then
    some (.bands bars width (some "#FF9800"))
  else if let some (word, digits) := Short.one.read? line then some (.short word digits)
  else if let some (fast, slow, signal) := Short.macd.read? line then some (.macd fast slow signal none)
  else if let some (bars, width) := Short.bands.read? line then some (.bands bars width none)
  else none

def descriptor? : Asked → Except ScriptError (Descriptor Float)
  | single kind digits color => Descriptor.ofPeriod? kind digits color
  | macd fast slow signal color => Descriptor.ofMacd? fast slow signal color
  | bands bars width color => Descriptor.ofBands? bars width color
  | short word digits => Descriptor.ofShort? word digits

/-- The rows of digits that are read as whole numbers. -/
def counts : Asked → List Text
  | single _ digits _ => [digits]
  | macd fast slow signal _ => [fast, slow, signal]
  | bands bars _ _ => [bars]
  | short _ digits => [digits]

def keyword? : Asked → Option Text
  | short word _ => some word
  | _ => none

/-- Its numbers are neither too long nor too large, and its keyword is spelled in ASCII. -/
@[mk_iff]
structure IsLegible (asked : Asked) : Prop where
  short : ∀ digits ∈ asked.counts, digits.length ≤ maxDigits
  small : ∀ digits ∈ asked.counts, digitsValue digits < Double.limit
  ascii : ∀ word ∈ asked.keyword?, word.IsAscii

theorem ofLine?_eq (line : Text) : Descriptor.ofLine? line = (ofLine? line).mapM descriptor? := by
  unfold Descriptor.ofLine? ofLine?
  cases Scanner.search (Call.one "sma") line with
  | some _ => rfl
  | none =>
  cases Scanner.search (Call.one "ema") line with
  | some _ => rfl
  | none =>
  cases Scanner.search (Call.one "rsi") line with
  | some _ => rfl
  | none =>
  cases Scanner.search Call.macd line with
  | some _ => rfl
  | none =>
  cases Scanner.search Call.bands line with
  | some _ => rfl
  | none =>
  cases Short.one.read? line with
  | some _ => rfl
  | none =>
  cases Short.macd.read? line with
  | some _ => rfl
  | none =>
  cases Short.bands.read? line with
  | some _ => rfl
  | none => rfl

theorem read?_of_ofLine? {line word digits : Text} (h : ofLine? line = some (.short word digits)) :
    Short.one.read? line = some (word, digits) := by
  unfold ofLine? at h
  split at h
  · cases h
  split at h
  · cases h
  split at h
  · cases h
  split at h
  · cases h
  split at h
  · cases h
  split at h
  · rename_i found
    cases h
    exact found
  split at h
  · cases h
  split at h
  · cases h
  · cases h

theorem descriptor?_ok_iff {line : Text} {asked : Asked} (found : ofLine? line = some asked) :
    (∃ d, asked.descriptor? = .ok d) ↔ asked.IsLegible := by
  rw [isLegible_iff]
  cases asked with
  | single kind digits color =>
    simp only [descriptor?, ofPeriod?, exists_ok_bind, whole?_ok_iff, exists_ok_pure, and_true, params?_ok_iff]
    simp [counts, keyword?]
  | macd fast slow signal color =>
    simp only [descriptor?, ofMacd?, exists_ok_bind, whole?_ok_iff, exists_ok_pure, and_true, params?_ok_iff]
    simp [counts, keyword?, and_assoc]
  | bands bars width color =>
    simp only [descriptor?, ofBands?, exists_ok_bind, whole?_ok_iff, exists_ok_pure, and_true, params?_ok_iff]
    simp [counts, keyword?]
  | short word digits =>
    obtain ⟨letters, known, spells⟩ := spells_of_short (read?_of_ofLine? found)
    have named := ofName?_lowered known spells
    simp only [descriptor?, ofShort?, exists_ok_bind, whole?_ok_iff]
    cases read : IndicatorKind.ofName? (lowered word) with
    | none =>
      have foreign : ¬word.IsAscii := by simp [← named, read]
      simp [counts, keyword?, foreign, throw, throwThe, MonadExceptOf.throw]
    | some kind =>
      have plain : word.IsAscii := named.mp ⟨kind, read⟩
      simp only [exists_ok_bind, exists_ok_pure, and_true, params?_ok_iff]
      simp [counts, keyword?, plain]

end Asked

def IsLegibleLine (line : Text) : Prop := ∀ asked, Asked.ofLine? line = some asked → asked.IsLegible

theorem ofLine?_ok_iff {line : Text} :
    (∃ d, (Descriptor.ofLine? line : Except ScriptError (Option (Descriptor Float))) = .ok d) ↔
      IsLegibleLine line := by
  rw [Asked.ofLine?_eq, IsLegibleLine]
  cases found : Asked.ofLine? line with
  | none => simp [pure, Except.pure]
  | some asked =>
    simp only [Option.mapM_some, exists_ok_map, Option.some.injEq, forall_eq']
    exact Asked.descriptor?_ok_iff found

namespace Script

/-- The indicators of a script when lines that cannot be read are passed over too. -/
def readable (script : Text) : List (Descriptor Float) :=
  (lines script).filterMap fun line => (Descriptor.ofLine? line).toOption.join

theorem indicators?_ok_iff {script : Text} {ds : List (Descriptor Float)} :
    indicators? script = .ok ds ↔ (∀ line ∈ lines script, IsLegibleLine line) ∧ ds = readable script := by
  unfold indicators?
  constructor
  · intro h
    obtain ⟨found, read, h⟩ := bind_ok h
    obtain rfl := pure_ok h
    exact ⟨fun line member => ofLine?_ok_iff.mp (ok_of_mapM read member), filterMap_of_mapM read⟩
  · rintro ⟨legible, rfl⟩
    obtain ⟨found, read⟩ := mapM_ok_of_forall fun line member => ofLine?_ok_iff.mpr (legible line member)
    rw [read, ok_bind, filterMap_of_mapM read]
    rfl

/-- For a script without an engine every line that asks for something is legible; one for bull and bear power does
not assign a span that is too large. -/
def IsLegible (script : Text) : Prop :=
  match kindOf script with
  | .generic => ∀ line ∈ lines script, IsLegibleLine line
  | .bullBear => ∀ digits, Scanner.search (Input.named Scanner.digits "sigma") script = some digits →
      digits.length ≤ maxDigits → digitsValue digits < Double.limit
  | .logistic | .regression => True

end Script

theorem InputForm.whole?_eq_some_iff {form : InputForm} {script name : Text} {n : Nat} :
    form.whole? script name = some n ↔
      ∃ digits, Scanner.search (form.find Scanner.digits name) script = some digits ∧
        digits.length ≤ maxDigits ∧ digitsValue digits = n := by
  unfold whole?
  cases found : Scanner.search (form.find Scanner.digits name) script with
  | none => simp
  | some digits =>
    simp only [Option.bind_eq_bind, Option.bind_some, Option.some.injEq, exists_eq_left', ← Descriptor.whole?_ok_iff]
    cases Descriptor.whole? digits <;> simp [Except.toOption]

theorem BullBearConfig.ofScript?_ok_iff {script : Text} :
    (∃ config : BullBearConfig Float, ofScript? script = .ok config) ↔
      ∀ n, InputForm.named.whole? script "sigma" = some n → n < Double.limit := by
  unfold ofScript?
  cases InputForm.named.whole? script "sigma" with
  | none => simp [pure, Except.pure]
  | some n =>
    have finite : isFinite (ofInt n : Float) = true ↔ n < Double.limit := (Double.isFinite_ofInt n).trans Nat.not_le
    by_cases small : n < Double.limit
    · simp [finite.mpr small, small, pure, Except.pure]
    · have infinite := mt finite.mp small
      simp [infinite, small, throw, throwThe, MonadExceptOf.throw]

namespace Script

theorem ofText?_iff {script : Text} :
    (∃ s, (ofText? script : Except ScriptError (Script Float)) = .ok s) ↔ IsLegible script := by
  unfold ofText? IsLegible
  cases kindOf script with
  | logistic => exact iff_of_true ⟨_, rfl⟩ trivial
  | regression => exact iff_of_true ⟨_, rfl⟩ trivial
  | bullBear =>
    simp only [exists_ok_map, BullBearConfig.ofScript?_ok_iff, InputForm.whole?_eq_some_iff, forall_exists_index,
      and_imp]
    constructor
    · intro small digits found short
      exact small _ digits found short rfl
    · rintro small n digits found short rfl
      exact small digits found short
  | generic =>
    simp only [exists_ok_map, indicators?_ok_iff, exists_and_left, exists_eq, and_true]

/-- Which scripts are read. A script without an engine is read exactly if each of its lines that asks for something
is legible, and then gives the indicators of its lines; classifying and previewing a script end in an error exactly
if it is not legible. A parameter of an engine is its default or a row of digits that is not too long. -/
theorem ofText?_ok_iff (script : Text) :
    (∀ ds : List (Descriptor Float), indicators? script = .ok ds ↔
      (∀ line ∈ lines script, IsLegibleLine line) ∧ ds = readable script) ∧
    ((∃ s, (ofText? script : Except ScriptError (Script Float)) = .ok s) ↔ IsLegible script) ∧
    ((∃ label, preview? script = .ok label) ↔ IsLegible script) ∧
    ∀ (form : InputForm) (name : Text) (default : Int), form.wholeOr script name default = default ∨
      ∃ digits, Scanner.search (form.find Scanner.digits name) script = some digits ∧
        digits.length ≤ maxDigits ∧ form.wholeOr script name default = digitsValue digits := by
  refine ⟨fun ds => indicators?_ok_iff, ofText?_iff, ?_, ?_⟩
  · rw [← ofText?_iff, preview?]
    cases (ofText? script : Except ScriptError (Script Float)) with
    | error e => exact iff_of_false nofun nofun
    | ok s => exact iff_of_true ⟨_, rfl⟩ ⟨s, rfl⟩
  · intro form name default
    unfold InputForm.wholeOr
    cases read : form.whole? script name with
    | none => exact Or.inl rfl
    | some n =>
      obtain ⟨digits, found, short, rfl⟩ := InputForm.whole?_eq_some_iff.mp read
      exact Or.inr ⟨digits, found, short, rfl⟩

/-- A keyword with a long s. -/
def foreignScript : Text := "ſma 20\nSMA 50"

/-- The keyword ends the reading, although the next line could be read. -/
theorem indicators?_foreignScript :
    (indicators? foreignScript : Except ScriptError (List (Descriptor Float))) = .error (.unknownKind "ſma") ∧
      readable foreignScript = [{ name := "SMA 50", kind := .sma, params := [("period", 50.0)] }] :=
  ⟨by decide +kernel, by decide +kernel⟩

end Script

end ChartOverlay
