import ChartOverlay.Proofs.Assignments

/-!
# Reading parameters back

A value is written as digits, as digits with a point, or as `true` or `false`. `holds_of_script` says that each engine
gets exactly the values that its script assigns, the nearest double where it calculates with one, and its defaults for
the rest.
-/

namespace ChartOverlay

/-! ### Digits -/

theorem isBlank_of_isDigit {c : CodePoint} (digit : isDigit c = true) : isBlank c = false := by
  have apart : ∀ first ∈ zeroDigits, ∀ range ∈ (0x1c, 0x1f) :: spaceRanges,
      first + 9 < range.1 ∨ range.2 < first := by decide
  obtain ⟨first, found⟩ := Option.isSome_iff_exists.mp (Option.isSome_map.symm.trans digit)
  have within := List.find?_some found
  have member := List.mem_of_find?_eq_some found
  rw [Bool.and_eq_true, decide_eq_true_eq, decide_eq_true_eq] at within
  rw [← Bool.not_eq_true]
  intro blank
  have range : ∃ range ∈ (0x1c, 0x1f) :: spaceRanges, range.1 ≤ c.code ∧ c.code ≤ range.2 := by
    rcases Bool.or_eq_true_iff.mp blank with separator | space
    · exact ⟨(0x1c, 0x1f), List.mem_cons_self, by simpa using separator⟩
    · obtain ⟨range, inside, bounds⟩ := List.any_eq_true.mp space
      exact ⟨range, List.mem_cons_of_mem _ inside, by simpa using bounds⟩
  obtain ⟨range, inside, lower, upper⟩ := range
  rcases apart first member range inside with below | above <;> omega

theorem digitValue_le (c : CodePoint) : digitValue c ≤ 9 := by
  unfold digitValue digitValue?
  cases found : zeroDigits.find? fun first => first ≤ c.code && c.code ≤ first + 9 with
  | none => exact Nat.zero_le 9
  | some first =>
    have within := List.find?_some found
    rw [Bool.and_eq_true, decide_eq_true_eq, decide_eq_true_eq] at within
    show c.code - first ≤ 9
    omega

theorem foldl_digits (n : Nat) (t : Text) :
    t.foldl (fun n c => 10 * n + digitValue c) n = n * 10 ^ t.length + digitsValue t := by
  induction t generalizing n with
  | nil => simp [digitsValue]
  | cons c t ih =>
    have start : digitsValue (c :: t) = t.foldl (fun n c => 10 * n + digitValue c) (10 * 0 + digitValue c) := rfl
    rw [List.foldl_cons, ih, start, ih, List.length_cons, Nat.pow_succ]
    ring

theorem digitsValue_append (s t : Text) : digitsValue (s ++ t) = digitsValue s * 10 ^ t.length + digitsValue t := by
  rw [digitsValue, List.foldl_append, foldl_digits]
  rfl

theorem digitsValue_lt (t : Text) : digitsValue t < 10 ^ t.length := by
  induction t with
  | nil => exact Nat.one_pos
  | cons c t ih =>
    have digit := digitValue_le c
    have first : digitsValue [c] = digitValue c := by simp [digitsValue]
    rw [← List.singleton_append, digitsValue_append, first, List.length_append, List.length_singleton, Nat.pow_add]
    have power := Nat.mul_le_mul_right (10 ^ t.length) digit
    omega

namespace Input

/-! ### Values -/

/-- A whole number of up to 300 digits, as it is written. -/
structure Numeral where
  digits : Text
  filled : digits ≠ []
  isDigits : ∀ c ∈ digits, isDigit c = true
  short : digits.length ≤ 300

namespace Numeral

def value (n : Numeral) : Nat := digitsValue n.digits

theorem notMem (n : Numeral) {c : CodePoint} (other : isDigit c = false) : c ∉ n.digits := by
  intro member
  rw [n.isDigits c member] at other
  cases other

theorem visible (n : Numeral) (rest : Text) : ∃ c t, n.digits ++ rest = c :: t ∧ isBlank c = false := by
  obtain ⟨c, t, same⟩ := List.exists_cons_of_ne_nil n.filled
  refine ⟨c, t ++ rest, by rw [same, List.cons_append], isBlank_of_isDigit (n.isDigits c ?_)⟩
  rw [same]
  exact List.mem_cons_self

def literal (n : Numeral) : Literal where
  text := n.digits
  visible := by simpa using n.visible []
  call := n.notMem (by decide)
  default := n.notMem (by decide)

/-- All numbers of up to so many digits have a numeral. -/
theorem exists_digits {k n : Nat} (pos : 0 < k) (small : n < 10 ^ k) : ∃ t : Text, t ≠ [] ∧
    (∀ c ∈ t, isDigit c = true) ∧ t.length ≤ k ∧ digitsValue t = n := by
  have digit : ∀ d < 10, isDigit (Char.ofNat (48 + d)) = true ∧ digitsValue [Char.ofNat (48 + d)] = d := by decide
  induction k generalizing n with
  | zero => exact absurd pos (by decide)
  | succ k ih =>
    have ⟨known, value⟩ := digit (n % 10) (Nat.mod_lt n (by decide))
    rcases Nat.eq_zero_or_pos k with rfl | more
    · rw [Nat.mod_eq_of_lt (by simpa using small)] at known value
      exact ⟨[.char (Char.ofNat (48 + n))], by simp, by simpa using known, le_rfl, value⟩
    obtain ⟨t, filled, known', short, value'⟩ := ih (n := n / 10) more (by rw [pow_succ] at small; omega)
    refine ⟨t ++ [.char (Char.ofNat (48 + n % 10))], by simp, ?_, by simpa using short, ?_⟩
    · intro c member
      rcases List.mem_append.mp member with inside | last
      · exact known' c inside
      · rw [List.mem_singleton.mp last]
        exact known
    · rw [digitsValue_append, value, value', List.length_singleton, pow_one]
      exact Nat.div_add_mod' n 10

theorem exists_value (n : Nat) (small : n < 10 ^ 300) : ∃ numeral : Numeral, numeral.value = n := by
  obtain ⟨t, filled, known, short, value⟩ := exists_digits (by decide) small
  exact ⟨⟨t, filled, known, short⟩, value⟩

end Numeral

/-- A number of up to 300 digits, with as many more after a point or with none, as it is written. -/
structure PointNumeral where
  whole : Numeral
  fraction : Option Numeral

namespace PointNumeral

def value (d : PointNumeral) : ℚ :=
  d.whole.value + d.fraction.elim 0 fun f => (f.value : ℚ) / 10 ^ f.digits.length

def fractionText (d : PointNumeral) : Text := d.fraction.elim [] fun f => .char '.' :: f.digits

def text (d : PointNumeral) : Text := d.whole.digits ++ d.fractionText

theorem mem_text {d : PointNumeral} {c : CodePoint} (member : c ∈ d.text) : isDigit c = true ∨ c = '.' := by
  obtain ⟨whole, _ | fraction⟩ := d
  · exact Or.inl (whole.isDigits c (by simpa [text, fractionText] using member))
  · rcases List.mem_append.mp member with inside | later
    · exact Or.inl (whole.isDigits c inside)
    · exact (List.mem_cons.mp later).symm.imp_left (fraction.isDigits c)

theorem notMem (d : PointNumeral) {c : CodePoint} (other : isDigit c = false) (noPoint : c ≠ '.') : c ∉ d.text := by
  intro member
  rcases mem_text member with digit | point
  · rw [digit] at other
    cases other
  · exact noPoint point

def literal (d : PointNumeral) : Literal where
  text := d.text
  visible := d.whole.visible _
  call := d.notMem (by decide) (by decide)
  default := d.notMem (by decide) (by decide)

end PointNumeral

def flagLiteral : Bool → Literal
  | true => ⟨"true", ⟨'t', "rue", by decide, by decide⟩, by decide, by decide⟩
  | false => ⟨"false", ⟨'f', "alse", by decide, by decide⟩, by decide, by decide⟩

/-! ### Scanning values -/

theorem isDigit_of_ends {c : CodePoint} (ends : Ends c) : isDigit c = false := by
  rcases ends with blank | rfl | rfl
  · rw [← Bool.not_eq_true]
    intro digit
    rw [isBlank_of_isDigit digit] at blank
    cases blank
  · decide
  · decide

theorem ne_point_of_ends {c : CodePoint} (ends : Ends c) : c ≠ '.' := by
  rintro rfl
  rcases ends with blank | same | same
  · revert blank
    decide
  · cases same
  · cases same

theorem reads_some1 {accepts : CodePoint → Bool} {t : Text} (filled : t ≠ []) (all : ∀ c ∈ t, accepts c = true)
    (stops : ∀ c, Ends c → accepts c = false) : Reads (Scanner.some1 accepts) t t := by
  intro c rest ends
  obtain ⟨d, t, rfl⟩ := List.exists_cons_of_ne_nil filled
  have first : Scanner.point accepts (d :: t ++ c :: rest) = some (d, t ++ c :: rest) := by
    rw [List.cons_append, Scanner.point, all d List.mem_cons_self, if_pos rfl]
  have others : Scanner.many accepts (t ++ c :: rest) = some (t, c :: rest) :=
    Scanner.many_append (fun e member => all e (List.mem_cons_of_mem d member)) (by simpa using stops c ends)
  rw [Scanner.some1, Scanner.bind_of_some first, Scanner.bind_of_some others]
  rfl

theorem reads_digits (n : Numeral) : Reads Scanner.digits n.literal.text n.digits :=
  reads_some1 n.filled n.isDigits fun _ => isDigit_of_ends

theorem reads_points (d : PointNumeral) : Reads points d.literal.text d.text := by
  refine reads_some1 (t := d.text) (by simp [PointNumeral.text, d.whole.filled]) ?_ ?_
  · intro c member
    simpa using PointNumeral.mem_text member
  · intro c ends
    simp [isDigit_of_ends ends, ne_point_of_ends ends]

theorem reads_flag (b : Bool) : Reads flag (flagLiteral b).text b := by
  intro c rest _
  cases b with
  | true => rfl
  | false => rfl

/-! ### Decimals -/

def PointNumeral.decimal (d : PointNumeral) : Decimal where
  digits := digitsValue (d.whole.digits ++ d.fraction.elim [] Numeral.digits)
  exponent := 0 - (d.fraction.elim [] Numeral.digits).length

theorem ofText?_text (d : PointNumeral) : Decimal.ofText? isDigit d.text = some d.decimal := by
  have filled : d.whole.digits.isEmpty = false := by simp [d.whole.filled]
  have whole : Scanner.many isDigit d.text = some (d.whole.digits, d.fractionText) := by
    refine Scanner.many_append d.whole.isDigits fun c first => ?_
    rcases choice : d.fraction with _ | fraction
    · simp [PointNumeral.fractionText, choice] at first
    · obtain rfl : .char '.' = c := by simpa [PointNumeral.fractionText, choice] using first
      decide
  have fraction : ((do discard (Scanner.point (· = '.')); Scanner.many isDigit) <|> pure [] : Scanner Text)
      d.fractionText = some (d.fraction.elim [] Numeral.digits, []) := by
    rcases choice : d.fraction with _ | fraction
    · rw [PointNumeral.fractionText, choice]
      rfl
    · have digits := @Scanner.many_append fraction.digits [] isDigit fraction.isDigits nofun
      rw [List.append_nil] at digits
      rw [PointNumeral.fractionText, choice]
      refine Scanner.orElse_of_some ?_
      rw [Option.elim_some, Scanner.bind_of_some (discard_point_cons _ _), digits]
      rfl
  have scanned : Decimal.scan isDigit d.text = some (d.decimal, []) := by
    rw [Decimal.scan, Scanner.bind_of_some whole, Scanner.bind_of_some fraction, filled, Bool.false_and]
    rfl
  rw [Decimal.ofText?, scanned]

/-- Numbers of 300 digits are far inside the range of doubles. -/
theorem abs_succ_value_lt (n : Numeral) : |((n.value + 1 : ℕ) : ℚ)| < 2 ^ 1023 := by
  have digits : n.value + 1 ≤ 10 ^ n.digits.length := Nat.succ_le_of_lt (digitsValue_lt n.digits)
  have wide := pow_le_pow_right₀ (by norm_num : (1 : ℕ) ≤ 10) n.short
  have power : 10 ^ 300 < 2 ^ 1023 := by decide +kernel
  exact Double.abs_natCast_lt (lt_of_le_of_lt (le_trans digits wide) power) le_rfl

theorem abs_value_lt (n : Numeral) : |(n.value : ℚ)| < 2 ^ 1023 := by
  refine lt_of_le_of_lt ?_ (abs_succ_value_lt n)
  rw [Nat.abs_cast, Nat.abs_cast]
  exact_mod_cast Nat.le_succ n.value

theorem isNearest_value (d : PointNumeral) : Double.IsNearest d.value (d.decimal.value : Float) := by
  obtain ⟨whole, _ | fraction⟩ := d
  · have exact : PointNumeral.value ⟨whole, none⟩ = whole.value := by simp [PointNumeral.value]
    have digits : (PointNumeral.decimal ⟨whole, none⟩).digits = whole.value := by
      simp [PointNumeral.decimal, Numeral.value]
    have read : ((PointNumeral.decimal ⟨whole, none⟩).value : Float) = Float.ofNat whole.value := by
      rw [← digits]
      rfl
    rw [exact, read]
    exact Double.isNearest_ofNat (abs_value_lt whole)
  -- what is before and after the point is read as one whole number, over a power of ten
  · have filled : 0 < fraction.digits.length := List.length_pos_iff.mpr fraction.filled
    have digits : digitsValue (whole.digits ++ fraction.digits) =
        whole.value * 10 ^ fraction.digits.length + fraction.value := digitsValue_append _ _
    have exact : PointNumeral.value ⟨whole, some fraction⟩ =
        (digitsValue (whole.digits ++ fraction.digits) : ℕ) / 10 ^ fraction.digits.length := by
      rw [PointNumeral.value, Option.elim_some, digits]
      push_cast
      field_simp
    have read : ((PointNumeral.decimal ⟨whole, some fraction⟩).value : Float) =
        Float.ofScientific (digitsValue (whole.digits ++ fraction.digits)) true fraction.digits.length := by
      have sign : decide ((0 : Int) - fraction.digits.length < 0) = true := decide_eq_true (by omega)
      have size : ((0 : Int) - fraction.digits.length).natAbs = fraction.digits.length := by omega
      show Float.ofScientific _ (decide ((0 : Int) - fraction.digits.length < 0))
        ((0 : Int) - fraction.digits.length).natAbs = _
      rw [sign, size]
      rfl
    have part : (fraction.value : ℚ) / 10 ^ fraction.digits.length ≤ 1 := by
      have below : (fraction.value : ℚ) ≤ 10 ^ fraction.digits.length := by
        exact_mod_cast Nat.le_of_lt (digitsValue_lt fraction.digits)
      exact (div_le_one (by positivity)).mpr below
    have small : |PointNumeral.value ⟨whole, some fraction⟩| < 2 ^ 1023 := by
      refine lt_of_le_of_lt ?_ (abs_succ_value_lt whole)
      rw [PointNumeral.value, Option.elim_some, abs_of_nonneg (by positivity), Nat.abs_cast, Nat.cast_succ]
      exact add_le_add_right part _
    rw [exact] at small ⊢
    rw [read]
    exact Double.isNearest_ofScientific filled (by have := fraction.short; omega) small

/-! ### Scripts of chosen values -/

/-- The chosen number, or else the default. -/
def settled (choice : Option Numeral) (default : Int) : Int := choice.elim default fun n => n.value

/-- The assignments of a choice of values: each parameter by its name, with a literal if it is chosen. -/
def assigned (fields : List (Text × Option Literal)) : List Assignment :=
  fields.filterMap fun field => field.2.map fun literal => ⟨field.1, literal⟩

theorem mem_assigned {fields : List (Text × Option Literal)} {a : Assignment} :
    a ∈ assigned fields ↔ (a.name, some a.literal) ∈ fields := by
  rw [assigned, List.mem_filterMap]
  constructor
  · rintro ⟨⟨name, _ | literal⟩, member, same⟩
    · cases same
    · cases same
      exact member
  · intro member
    exact ⟨_, member, rfl⟩

/-- A script whose lines assign the chosen values in any order, with other lines between them. -/
structure IsScriptOf (fields : List (Text × Option Literal)) (lines : List ScriptLine) : Prop where
  separate : Separate (fields.map Prod.fst)
  assigns : (assignments lines).Perm (assigned fields)

section Fields
variable {fields : List (Text × Option Literal)} {lines : List ScriptLine}

theorem IsScriptOf.within (h : IsScriptOf fields lines) :
    ∀ a ∈ assignments lines, a.name ∈ fields.map Prod.fst := by
  intro a member
  exact List.mem_map_of_mem (mem_assigned.mp (h.assigns.mem_iff.mp member))

theorem IsScriptOf.field_eq (h : IsScriptOf fields lines) {name : Text} {choice choice' : Option Literal}
    (first : (name, choice) ∈ fields) (second : (name, choice') ∈ fields) : choice = choice' :=
  congrArg Prod.snd (List.inj_on_of_nodup_map h.separate.distinct first second rfl)

variable {β : Type} {scanner : Scanner β}

theorem search_none {w : Writing} (h : IsScriptOf fields lines) {name : Text} (field : (name, none) ∈ fields) :
    Scanner.search (w.form.find scanner name) (w.script lines) = none := by
  refine search_of_absent h.separate (List.mem_map_of_mem field) h.within fun a member same => ?_
  have other := mem_assigned.mp (h.assigns.mem_iff.mp member)
  rw [same] at other
  cases h.field_eq field other

theorem search_some {w : Writing} (h : IsScriptOf fields lines) {name : Text} {literal : Literal} {v : β}
    (field : (name, some literal) ∈ fields) (reads : Reads scanner literal.text v) :
    Scanner.search (w.form.find scanner name) (w.script lines) = some v := by
  have member : (⟨name, literal⟩ : Assignment) ∈ assignments lines :=
    h.assigns.mem_iff.mpr (mem_assigned.mpr field)
  refine search_of_assigned (a := ⟨name, literal⟩) h.separate h.within member ?_ reads
  rintro ⟨name', literal'⟩ member' rfl
  cases h.field_eq field (mem_assigned.mp (h.assigns.mem_iff.mp member'))
  rfl

theorem whole?_script (w : Writing) (h : IsScriptOf fields lines) (name : Text) (choice : Option Numeral)
    (field : (name, choice.map Numeral.literal) ∈ fields) :
    w.form.whole? (w.script lines) name = choice.map Numeral.value := by
  cases choice with
  | none => rw [InputForm.whole?, search_none h field]; rfl
  | some n =>
    have short : n.digits.length ≤ maxDigits := Nat.le_trans n.short (by decide)
    exact InputForm.whole?_eq_some_iff.mpr ⟨n.digits, search_some h field (reads_digits n), short, rfl⟩

theorem wholeOr_script (w : Writing) (h : IsScriptOf fields lines) (name : Text) (choice : Option Numeral)
    (field : (name, choice.map Numeral.literal) ∈ fields) (default : Int) :
    w.form.wholeOr (w.script lines) name default = settled choice default := by
  rw [InputForm.wholeOr, whole?_script w h name choice field]
  cases choice <;> rfl

theorem decimal?_script (w : Writing) (h : IsScriptOf fields lines) (name : Text) (choice : Option PointNumeral)
    (field : (name, choice.map PointNumeral.literal) ∈ fields) :
    w.form.decimal? (w.script lines) name = choice.map PointNumeral.decimal := by
  cases choice with
  | none => rw [InputForm.decimal?, search_none h field]; rfl
  | some d =>
    rw [InputForm.decimal?, search_some h field (reads_points d)]
    exact ofText?_text d

theorem flag?_script (w : Writing) (h : IsScriptOf fields lines) (name : Text) (choice : Option Bool)
    (field : (name, choice.map flagLiteral) ∈ fields) : w.form.flag? (w.script lines) name = choice := by
  cases choice with
  | none => exact search_none h field
  | some b => exact search_some h field (reads_flag b)

end Fields

end Input

/-! ### The engines -/

open Input

/-- Values for some parameters of the engine of logistic regression. -/
structure LogisticConfig.Choice where
  lookback : Option Numeral := none
  normalization : Option Numeral := none
  learningRate : Option PointNumeral := none
  iterations : Option Numeral := none
  holdingPeriod : Option Numeral := none
  showCurves : Option Bool := none
  usePrice : Option Bool := none

namespace LogisticConfig.Choice

def fields (c : Choice) : List (Text × Option Literal) :=
  [("lookback", c.lookback.map Numeral.literal), ("nlbk", c.normalization.map Numeral.literal),
    ("lrate", c.learningRate.map PointNumeral.literal), ("iterations", c.iterations.map Numeral.literal),
    ("holding_p", c.holdingPeriod.map Numeral.literal), ("curves", c.showCurves.map flagLiteral),
    ("useprice", c.usePrice.map flagLiteral)]

/-- The parameters are as chosen, and the others are the defaults. -/
structure Holds (c : Choice) (config : LogisticConfig Float) : Prop where
  lookback : config.lookback = settled c.lookback 2
  normalization : config.normalization = settled c.normalization 2
  learningRate : c.learningRate.elim (config.learningRate = 0.0009) fun d =>
    Double.IsNearest d.value config.learningRate
  iterations : config.iterations = settled c.iterations 1000
  holdingPeriod : config.holdingPeriod = settled c.holdingPeriod 1
  showCurves : config.showCurves = c.showCurves.getD false
  usePrice : config.usePrice = c.usePrice.getD true

theorem separate (c : Choice) : Separate (c.fields.map Prod.fst) := by
  show Separate ["lookback", "nlbk", "lrate", "iterations", "holding_p", "curves", "useprice"]
  exact ⟨by decide, by decide, by decide, by decide⟩

end LogisticConfig.Choice

structure RegressionConfig.Choice where
  regressionLength : Option Numeral := none
  emaLength : Option Numeral := none

namespace RegressionConfig.Choice

def fields (c : Choice) : List (Text × Option Literal) :=
  [("length", c.regressionLength.map Numeral.literal), ("emaLength", c.emaLength.map Numeral.literal)]

structure Holds (c : Choice) (config : RegressionConfig) : Prop where
  regressionLength : config.regressionLength = settled c.regressionLength 14
  emaLength : config.emaLength = settled c.emaLength 20

theorem separate (c : Choice) : Separate (c.fields.map Prod.fst) := by
  show Separate ["length", "emaLength"]
  exact ⟨by decide, by decide, by decide, by decide⟩

end RegressionConfig.Choice

structure BullBearConfig.Choice where
  window : Option Numeral := none
  smooth : Option Bool := none
  smoothFactor : Option Numeral := none
  sigma : Option Numeral := none

namespace BullBearConfig.Choice

def fields (c : Choice) : List (Text × Option Literal) :=
  [("window", c.window.map Numeral.literal), ("smooth", c.smooth.map flagLiteral),
    ("smap", c.smoothFactor.map Numeral.literal), ("sigma", c.sigma.map Numeral.literal)]

structure Holds (c : Choice) (config : BullBearConfig Float) : Prop where
  window : config.window = settled c.window 10
  smooth : config.smooth = c.smooth.getD true
  smoothFactor : config.smoothFactor = settled c.smoothFactor 5
  sigma : c.sigma.elim (config.sigma = .whole 6) fun n => ∃ x, config.sigma = .value x ∧ Double.IsNearest n.value x

theorem separate (c : Choice) : Separate (c.fields.map Prod.fst) := by
  show Separate ["window", "smooth", "smap", "sigma"]
  exact ⟨by decide, by decide, by decide, by decide⟩

end BullBearConfig.Choice

theorem LogisticConfig.holds_ofScript (c : Choice) {lines : List ScriptLine} (h : IsScriptOf c.fields lines) :
    c.Holds (LogisticConfig.ofScript (Writing.leading.script lines)) where
  lookback := wholeOr_script .leading h "lookback" c.lookback (by simp [Choice.fields]) _
  normalization := wholeOr_script .leading h "nlbk" c.normalization (by simp [Choice.fields]) _
  learningRate := by
    have read := decimal?_script .leading h "lrate" c.learningRate (by simp [Choice.fields])
    have rate : (LogisticConfig.ofScript (Writing.leading.script lines) : LogisticConfig Float).learningRate =
        ((c.learningRate.map PointNumeral.decimal).map Decimal.value).getD 0.0009 :=
      congrArg (fun found => (Option.map Decimal.value found).getD _) read
    rw [rate]
    cases c.learningRate with
    | none => rfl
    | some d => exact isNearest_value d
  iterations := wholeOr_script .leading h "iterations" c.iterations (by simp [Choice.fields]) _
  holdingPeriod := wholeOr_script .leading h "holding_p" c.holdingPeriod (by simp [Choice.fields]) _
  showCurves := congrArg (Option.getD · _) (flag?_script .leading h "curves" c.showCurves (by simp [Choice.fields]))
  usePrice := congrArg (Option.getD · _) (flag?_script .leading h "useprice" c.usePrice (by simp [Choice.fields]))

theorem RegressionConfig.holds_ofScript (c : Choice) {lines : List ScriptLine} (h : IsScriptOf c.fields lines) :
    c.Holds (RegressionConfig.ofScript (Writing.leading.script lines)) where
  regressionLength := wholeOr_script .leading h "length" c.regressionLength (by simp [Choice.fields]) _
  emaLength := wholeOr_script .leading h "emaLength" c.emaLength (by simp [Choice.fields]) _

theorem BullBearConfig.holds_ofScript (c : Choice) {lines : List ScriptLine} (h : IsScriptOf c.fields lines) :
    ∃ config, BullBearConfig.ofScript? (Writing.named.script lines) = .ok config ∧ c.Holds config := by
  have sigma : InputForm.named.whole? (Writing.named.script lines) "sigma" = c.sigma.map Numeral.value :=
    whole?_script .named h "sigma" c.sigma (by simp [Choice.fields])
  have window := wholeOr_script .named h "window" c.window (by simp [Choice.fields]) 10
  have smoothFactor := wholeOr_script .named h "smap" c.smoothFactor (by simp [Choice.fields]) 5
  have smooth := congrArg (Option.getD · true) (flag?_script .named h "smooth" c.smooth (by simp [Choice.fields]))
  rw [BullBearConfig.ofScript?, sigma]
  rcases choice : c.sigma with _ | n
  · exact ⟨_, rfl, window, smooth, smoothFactor, by rw [choice]; rfl⟩
  · have nearest := Double.isNearest_ofNat (abs_value_lt n)
    have finite : Arith.isFinite (Arith.ofInt n.value : Float) = true := nearest.1
    refine ⟨_, by rw [Option.map_some]; simp only [finite, if_true]; rfl, window, smooth, smoothFactor, ?_⟩
    rw [choice]
    exact ⟨_, rfl, nearest⟩

/-- Parameters survive being written into a script: whatever values are chosen, whatever the order of their
assignments, their titles, the blanks in them and the other lines, the script is read as a configuration with these
values, and with the defaults for the other parameters. -/
theorem holds_of_script :
    (∀ (c : LogisticConfig.Choice) (lines : List ScriptLine), (assignments lines).Perm (assigned c.fields) →
      c.Holds (LogisticConfig.ofScript (Writing.leading.script lines))) ∧
    (∀ (c : RegressionConfig.Choice) (lines : List ScriptLine), (assignments lines).Perm (assigned c.fields) →
      c.Holds (RegressionConfig.ofScript (Writing.leading.script lines))) ∧
    ∀ (c : BullBearConfig.Choice) (lines : List ScriptLine), (assignments lines).Perm (assigned c.fields) →
      ∃ config, BullBearConfig.ofScript? (Writing.named.script lines) = .ok config ∧ c.Holds config := by
  refine ⟨?_, ?_, ?_⟩
  · intro c lines assigns
    exact LogisticConfig.holds_ofScript c ⟨c.separate, assigns⟩
  · intro c lines assigns
    exact RegressionConfig.holds_ofScript c ⟨c.separate, assigns⟩
  · intro c lines assigns
    exact BullBearConfig.holds_ofScript c ⟨c.separate, assigns⟩

/-- Two parameters out of order with a remark between them, and a title that looks like the front of an assignment. -/
theorem holds_of_mixed_script :
    let first : Numeral := ⟨"21", by decide, by decide, by decide⟩
    let second : Numeral := ⟨"9", by decide, by decide, by decide⟩
    let title : Title := ⟨"length = ", by decide, by decide⟩
    let space : Blanks := ⟨" ", by decide⟩
    let lines : List ScriptLine := [.assignment ⟨"emaLength", second.literal⟩ { title, beforeEquals := space },
      .other "// length = 3" (by decide), .assignment ⟨"length", first.literal⟩ { title, afterBracket := space }]
    let rate : List ScriptLine := [.assignment ⟨"lrate", (PointNumeral.mk second (some first)).literal⟩ { title }]
    let sigma : List ScriptLine := [.assignment ⟨"sigma", second.literal⟩ { title, afterDefault := space }]
    Writing.leading.script lines = "emaLength =input(9,'length = ')\n// length = 3\nlength=input( 21,'length = ')" ∧
    RegressionConfig.Choice.Holds { regressionLength := some first, emaLength := some second }
      (RegressionConfig.ofScript (Writing.leading.script lines)) ∧
    LogisticConfig.Choice.Holds { learningRate := some ⟨second, some first⟩ }
      (LogisticConfig.ofScript (Writing.leading.script rate)) ∧
    ∃ config, BullBearConfig.ofScript? (Writing.named.script sigma) = .ok config ∧
      BullBearConfig.Choice.Holds { sigma := some second } config := by
  intro first second title space lines rate sigma
  refine ⟨by decide, holds_of_script.2.1 _ lines ?_, holds_of_script.1 _ rate ?_, holds_of_script.2.2 _ sigma ?_⟩
  · exact .swap _ _ _
  · exact .refl _
  · exact .refl _

end ChartOverlay
