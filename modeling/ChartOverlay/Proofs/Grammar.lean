import ChartOverlay.Proofs.Legibility
import ChartOverlay.Proofs.Phrases

/-!
# What script lines ask for

The rules of a line say which indicator it asks for: a call that stands in it, or a short form that it is. The first
rule that applies decides, and a line to which none applies asks for nothing (`ofLine?_first`). Where numbers are not
very long and letters are not foreign, a case-insensitive match is one in small letters, the mark `ta.` before a call
changes nothing, and every number that is found can be read.
-/

namespace ChartOverlay

open Scanner

/-! ### Ordinary lines -/

/-- A line without very long numbers and without the letters that stand for other ones when case does not count. -/
structure IsOrdinary (line : Text) : Prop where
  short : ∀ run, run <:+: line → (∀ c ∈ run, isDigit c = true) → run.length ≤ 300
  letters : ∀ c ∈ line, c ≠ .char 'ſ' ∧ c ≠ .char 'İ' ∧ c ≠ .char 'ı'

theorem IsOrdinary.of_part {line t : Text} (h : IsOrdinary line) (inside : t <:+: line) : IsOrdinary t where
  short run part := h.short run (part.trans inside)
  letters c member := h.letters c (inside.subset member)

theorem standsFor_iff {letter : Char} {c : CodePoint} (ordinary : c ≠ .char 'ſ' ∧ c ≠ .char 'İ' ∧ c ≠ .char 'ı') :
    standsFor letter c = true ↔ c.map Char.toLower = letter := by
  simp [standsFor, ordinary]

theorem spells_iff {letters : String} {w : Text} (h : IsOrdinary w) : Spells letters w ↔ IsInAnyCase letters w := by
  have stands (ls : List Char) : List.Forall₂ (fun l c => standsFor l c = true) ls w ↔
      w.map (·.map Char.toLower) = ls.map CodePoint.char := by
    have ordinary := h.letters
    clear h
    induction w generalizing ls with
    | nil => cases ls <;> simp
    | cons c w ih =>
      have ⟨first, others⟩ := List.forall_mem_cons.mp ordinary
      rcases ls with _ | ⟨l, ls⟩
      · simp
      · rw [List.forall₂_cons, List.map_cons, List.map_cons, List.cons.injEq]
        exact and_congr (standsFor_iff first) (ih ls others)
  exact stands letters.toList

section Spaced
variable {least : Nat} {parts : List Text} {t rest : Text}

theorem infix_of_spaced (h : Spaced least parts t rest) {part : Text} (member : part ∈ parts) : part <:+: t := by
  induction parts generalizing t with
  | nil => cases member
  | cons first parts ih =>
    rcases parts with _ | ⟨second, parts⟩
    · obtain rfl := List.mem_singleton.mp member
      obtain rfl : t = part ++ rest := h
      exact (List.prefix_append part rest).isInfix
    · obtain ⟨b, u, -, rfl, later⟩ := h
      rcases List.mem_cons.mp member with rfl | other
      · exact (List.prefix_append part _).isInfix
      · exact (ih later other).trans ((List.suffix_append b.1 u).trans (List.suffix_append first _)).isInfix

end Spaced

theorem mem_argumentParts {numbers : List Text} {n : Text} (member : n ∈ numbers) : n ∈ argumentParts numbers :=
  List.mem_append_left _ (List.mem_flatMap.mpr ⟨n, member, by simp⟩)

section Forms
variable {name : String} {kinds : List (Text → Prop)} {numbers : List Text} {spelled : Spelling} {t : Text}

theorem IsCall.part (h : IsCall spelled name kinds numbers t) {n : Text} (member : n ∈ numbers) : n <:+: t := by
  obtain ⟨-, word, close, rest, -, -, spaced⟩ := h
  exact infix_of_spaced spaced (by simp [callParts, mem_argumentParts member])

theorem IsShort.part (h : IsShort spelled name kinds numbers t) {n : Text} (member : n ∈ numbers) : n <:+: t := by
  obtain ⟨-, word, rest, -, spaced, -⟩ := h
  exact infix_of_spaced spaced (List.mem_cons_of_mem word member)

theorem isCall_iff (h : IsOrdinary t) :
    IsCall Spells name kinds numbers t ↔ IsCall IsInAnyCase name kinds numbers t := by
  have same {word close rest : Text} (spaced : Spaced 0 (callParts word close numbers) t rest) :
      (Spells name word ↔ IsInAnyCase name word) ∧ (Spells "close" close ↔ IsInAnyCase "close" close) :=
    ⟨spells_iff (h.of_part (infix_of_spaced spaced (by simp [callParts]))),
      spells_iff (h.of_part (infix_of_spaced spaced (by simp [callParts])))⟩
  constructor
  · rintro ⟨forms, word, close, rest, named, closes, spaced⟩
    exact ⟨forms, word, close, rest, (same spaced).1.mp named, (same spaced).2.mp closes, spaced⟩
  · rintro ⟨forms, word, close, rest, named, closes, spaced⟩
    exact ⟨forms, word, close, rest, (same spaced).1.mpr named, (same spaced).2.mpr closes, spaced⟩

theorem isShort_iff (h : IsOrdinary t) :
    IsShort Spells name kinds numbers t ↔ IsShort IsInAnyCase name kinds numbers t := by
  have same {word rest : Text} (spaced : Spaced 1 (word :: numbers) t rest) :
      Spells name word ↔ IsInAnyCase name word :=
    spells_iff (h.of_part (infix_of_spaced spaced List.mem_cons_self))
  constructor
  · rintro ⟨forms, word, rest, named, spaced, ends⟩
    exact ⟨forms, word, rest, (same spaced).mp named, spaced, ends⟩
  · rintro ⟨forms, word, rest, named, spaced, ends⟩
    exact ⟨forms, word, rest, (same spaced).mpr named, spaced, ends⟩

end Forms

/-! ### The leftmost place -/

section Leftmost
variable {β : Type} {form form' : β → Text → Prop} {t : Text} {v w : β} {c : CodePoint}

theorem isLeftmost_congr (same : ∀ rest, rest <:+ t → ∀ v, form v rest ↔ form' v rest) :
    IsLeftmost form t v ↔ IsLeftmost form' t v := by
  induction t with
  | nil => rw [isLeftmost_nil, isLeftmost_nil, same [] List.suffix_rfl]
  | cons c t ih =>
    have here (w : β) := same (c :: t) List.suffix_rfl w
    rw [isLeftmost_cons, isLeftmost_cons, ih fun rest suffix => same rest (suffix.trans (List.suffix_cons c t))]
    simp only [here]

theorem isLeftmost_map {γ : Type} {f : γ → β} (onto : ∀ w rest, form w rest → ∃ u, w = f u) {u : γ} :
    IsLeftmost (fun u => form (f u)) t u ↔ IsLeftmost form t (f u) := by
  constructor
  · rintro ⟨front, rest, split, stands, least⟩
    refine ⟨front, rest, split, stands, fun front' rest' w split' stands' => ?_⟩
    obtain ⟨u', rfl⟩ := onto w rest' stands'
    exact least front' rest' u' split' stands'
  · rintro ⟨front, rest, split, stands, least⟩
    exact ⟨front, rest, split, stands, fun front' rest' u' split' stands' => least front' rest' _ split' stands'⟩

theorem stands_map {γ : Type} {f : γ → β} (onto : ∀ w rest, form w rest → ∃ u, w = f u) :
    Stands (fun u => form (f u)) t ↔ Stands form t := by
  constructor
  · rintro ⟨front, rest, u, split, stands⟩
    exact ⟨front, rest, f u, split, stands⟩
  · rintro ⟨front, rest, w, split, stands⟩
    obtain ⟨u, rfl⟩ := onto w rest stands
    exact ⟨front, rest, u, split, stands⟩

theorem isLeftmost_of_form (here : form v t) : IsLeftmost form t v :=
  ⟨[], t, rfl, here, fun front _ _ _ _ => Nat.zero_le front.length⟩

theorem IsLeftmost.form_of_here (h : IsLeftmost form t v) (here : form w t) : form v t := by
  obtain ⟨front, rest, rfl, stands, least⟩ := h
  obtain rfl := List.length_eq_zero_iff.mp (Nat.le_zero.mp (least [] _ w rfl here))
  exact stands

theorem isLeftmost_cons_of_absent (absent : ∀ w, ¬form w (c :: t)) :
    IsLeftmost form (c :: t) v ↔ IsLeftmost form t v := by
  rw [isLeftmost_cons]
  simp [absent]

/-- A form, perhaps with `ta.` before it. -/
def Marked (form : β → Text → Prop) (v : β) (t : Text) : Prop :=
  form v t ∨ ∃ mark rest, IsInAnyCase "ta." mark ∧ t = mark ++ rest ∧ form v rest

/-- No form starts with a letter of the mark. -/
def Unmarked (form : β → Text → Prop) : Prop :=
  ∀ v c t, form v (c :: t) → c.map Char.toLower ∉ ("ta." : Text)

/-- The mark before a form changes nothing. -/
theorem isLeftmost_marked_iff (unmarked : Unmarked form) : IsLeftmost (Marked form) t v ↔ IsLeftmost form t v := by
  -- no form starts inside the mark, so the leftmost form behind it is the leftmost one from its front on
  have skipped {m rest : Text} (mark : IsInAnyCase "ta." m) :
      IsLeftmost form (m ++ rest) v ↔ IsLeftmost form rest v := by
    have letters : ∀ c ∈ m, c.map Char.toLower ∈ ("ta." : Text) := by
      intro c member
      rw [← mark]
      exact List.mem_map_of_mem member
    clear mark
    induction m with
    | nil => rfl
    | cons c m ih =>
      have ⟨first, others⟩ := List.forall_mem_cons.mp letters
      have absent : ∀ w, ¬form w (c :: (m ++ rest)) := fun w stands => unmarked w c _ stands first
      exact (isLeftmost_cons_of_absent absent).trans (ih others)
  induction t with
  | nil =>
    rw [isLeftmost_nil, isLeftmost_nil]
    refine ⟨?_, Or.inl⟩
    rintro (stands | ⟨mark, rest, letters, split, -⟩)
    · exact stands
    · obtain ⟨rfl, -⟩ := List.append_eq_nil_iff.mp split.symm
      cases letters
  | cons c t ih =>
    refine isLeftmost_cons.trans ((or_congr Iff.rfl (and_congr Iff.rfl ih)).trans ?_)
    constructor
    · rintro ((stands | ⟨mark, rest, letters, split, stands⟩) | ⟨absent, later⟩)
      · exact isLeftmost_of_form stands
      · rw [split, skipped letters]
        exact isLeftmost_of_form stands
      · exact isLeftmost_cons.mpr (Or.inr ⟨fun w stands => absent w (Or.inl stands), later⟩)
    · intro h
      by_cases marked : ∃ w, Marked form w (c :: t)
      · obtain ⟨w, stands | ⟨mark, rest, letters, split, stands⟩⟩ := marked
        · exact Or.inl (Or.inl (h.form_of_here stands))
        · rw [split, skipped letters] at h
          exact Or.inl (Or.inr ⟨mark, rest, letters, split, h.form_of_here stands⟩)
      · have absent : ∀ w, ¬Marked form w (c :: t) := not_exists.mp marked
        exact Or.inr ⟨absent, (isLeftmost_cons_of_absent fun w stands => absent w (Or.inl stands)).mp h⟩

end Leftmost

/-- The first code point of a call is that of its name. -/
theorem unmarked_isCall {spelled : Spelling} {name : String} {kinds : List (Text → Prop)}
    (opens : ∀ word, spelled name word → ∃ c ∈ word.head?, c.map Char.toLower ∉ ("ta." : Text)) :
    Unmarked (IsCall spelled name kinds) := by
  rintro numbers c t ⟨-, word, close, rest, named, -, spaced⟩ member
  obtain ⟨d, first, other⟩ := opens word named
  obtain ⟨word, rfl⟩ := List.head?_eq_some_iff.mp first
  obtain ⟨b, u, -, split, -⟩ := spaced
  obtain ⟨rfl, -⟩ := List.cons.inj split
  exact other member

theorem opens_of_isInAnyCase {name : String} (opens : ∃ c ∈ name.toList.head?, CodePoint.char c ∉ ("ta." : Text))
    (word : Text) (named : IsInAnyCase name word) : ∃ c ∈ word.head?, c.map Char.toLower ∉ ("ta." : Text) := by
  obtain ⟨letter, first, other⟩ := opens
  obtain ⟨letters, same⟩ := List.head?_eq_some_iff.mp first
  have written : word.map (·.map Char.toLower) = .char letter :: letters.map CodePoint.char := by
    rw [← List.map_cons, ← same]
    exact named
  obtain ⟨c, word, rfl, lower, -⟩ := List.map_eq_cons_iff.mp written
  exact ⟨c, rfl, lower ▸ other⟩

/-! ### Numbers -/

/-- The decimal that a number stands for, with a point in it or without. -/
inductive Denotes : Text → Decimal → Prop
  | whole {n : Text} (number : IsNumber n) : Denotes n { digits := digitsValue n, exponent := 0 }
  | point {n fraction : Text} (number : IsNumber n) (digits : ∀ c ∈ fraction, isDigit c = true) :
      Denotes (n ++ .char '.' :: fraction) { digits := digitsValue (n ++ fraction), exponent := -fraction.length }

theorem exists_denotes {t : Text} (h : IsDecimal t) : ∃ d, Denotes t d := by
  rcases h with number | ⟨whole, fraction, number, digits, rfl⟩
  · exact ⟨_, .whole number⟩
  · exact ⟨_, .point number digits⟩

theorem ofText?_of_denotes {t : Text} {d : Decimal} (h : Denotes t d) : Decimal.ofText? isDigit t = some d := by
  cases h with
  | whole number => simpa using @ofText?_digits t none number.2 nofun (Or.inl number.1)
  | @point n f number digits => exact @ofText?_digits n (some f) number.2 digits (Or.inl number.1)

/-! ### Rules -/

namespace Grammar

def single (kind : IndicatorKind) (n : Text) (color : Option Text) : Descriptor Float where
  name := kind.keyword ++ " " ++ toString (digitsValue n)
  kind
  params := [("period", Arith.ofInt (digitsValue n))]
  color

def triple (fast slow signal : Text) (color : Option Text) : Descriptor Float where
  name := "MACD"
  kind := .macd
  params := [("fast", Arith.ofInt (digitsValue fast)), ("slow", Arith.ofInt (digitsValue slow)),
    ("signal", Arith.ofInt (digitsValue signal))]
  color

def band (bars width : Text) (factor : Decimal) (color : Option Text) : Descriptor Float where
  name := "BB " ++ bars ++ "," ++ width
  kind := .bb
  params := [("period", Arith.ofInt (digitsValue bars)), ("stddev", factor.value)]
  color

/-- A line has a call, of which this is the leftmost one. -/
abbrev Calls (name : String) (kinds : List (Text → Prop)) (line : Text) (numbers : List Text) : Prop :=
  IsLeftmost (Marked (IsCall IsInAnyCase name kinds)) line numbers

/-- The color that a line assigns first, if it is known. -/
def HasColor (line : Text) (color : Option Text) : Prop :=
  (∃ token, IsLeftmost IsColor line token ∧ color = resolveColor token) ∨ ¬Stands IsColor line ∧ color = none

def callRules (line : Text) : List (Descriptor Float → Prop) :=
  [fun d => ∃ n color, Calls "sma" [IsNumber] line [n] ∧ HasColor line color ∧ d = single .sma n color,
   fun d => ∃ n color, Calls "ema" [IsNumber] line [n] ∧ HasColor line color ∧ d = single .ema n color,
   fun d => ∃ n, Calls "rsi" [IsNumber] line [n] ∧ d = single .rsi n (some "#AB47BC"),
   fun d => ∃ fast slow signal, Calls "macd" [IsNumber, IsNumber, IsNumber] line [fast, slow, signal] ∧
     d = triple fast slow signal (some "#2196F3"),
   fun d => ∃ bars width factor, Calls "bb" [IsNumber, IsDecimal] line [bars, width] ∧ Denotes width factor ∧
     d = band bars width factor (some "#FF9800")]

def shortRules (line : Text) : List (Descriptor Float → Prop) :=
  [fun d => ∃ kind ∈ [IndicatorKind.sma, .ema, .rsi], ∃ n,
     IsShort IsInAnyCase kind.name [IsNumber] [n] line ∧ d = single kind n none,
   fun d => ∃ fast slow signal,
     IsShort IsInAnyCase "macd" [IsNumber, IsNumber, IsNumber] [fast, slow, signal] line ∧
       d = triple fast slow signal none,
   fun d => ∃ bars width factor, IsShort IsInAnyCase "bb" [IsNumber, IsDecimal] [bars, width] line ∧
     Denotes width factor ∧ d = band bars width factor none]

/-- The first rule that applies decides. -/
inductive First {δ : Type} : List (δ → Prop) → Option δ → Prop
  | here {rule : δ → Prop} {rules : List (δ → Prop)} {d : δ} (applies : rule d) : First (rule :: rules) (some d)
  | later {rule : δ → Prop} {rules : List (δ → Prop)} {r : Option δ} (silent : ∀ d, ¬rule d) (others : First rules r) :
      First (rule :: rules) r
  | none : First [] none

theorem first_iff {δ : Type} {rules : List (δ → Prop)} {found : List (Option δ)}
    (h : List.Forall₂ (fun rule x => ∀ d, rule d ↔ x = some d) rules found) {r : Option δ} :
    First rules r ↔ r = found.findSome? id := by
  induction h with
  | nil =>
    constructor
    · rintro ⟨⟩
      rfl
    · rintro rfl
      exact .none
  | @cons rule x rules found first _ ih =>
    cases x with
    | none =>
      have silent : ∀ d, ¬rule d := by simp [first]
      rw [List.findSome?_cons]
      constructor
      · rintro (applies | ⟨-, others⟩)
        · exact absurd applies (silent _)
        · exact ih.mp others
      · intro same
        exact .later silent (ih.mpr same)
    | some d =>
      have applies : rule d := by simp [first]
      rw [List.findSome?_cons]
      constructor
      · rintro (applies' | ⟨silent, -⟩)
        · exact ((first _).mp applies').symm
        · exact absurd applies (silent d)
      · rintro rfl
        exact .here applies

/-! ### Lines -/

section Found
variable {line : Text}

theorem exists_one {spelled : Spelling} {name : String} {kind : Text → Prop} (numbers : List Text) (t : Text)
    (h : IsCall spelled name [kind] numbers t) : ∃ n, numbers = [n] := by
  obtain ⟨_ | ⟨-, _ | _⟩, -⟩ := h
  exact ⟨_, rfl⟩

theorem exists_two {spelled : Spelling} {name : String} {kind kind' : Text → Prop} (numbers : List Text) (t : Text)
    (h : IsCall spelled name [kind, kind'] numbers t) : ∃ v : Text × Text, numbers = [v.1, v.2] := by
  obtain ⟨_ | ⟨-, _ | ⟨-, _ | _⟩⟩, -⟩ := h
  exact ⟨(_, _), rfl⟩

theorem exists_three {spelled : Spelling} {name : String} {kind kind' kind'' : Text → Prop} (numbers : List Text)
    (t : Text) (h : IsCall spelled name [kind, kind', kind''] numbers t) :
    ∃ v : Text × Text × Text, numbers = [v.1, v.2.1, v.2.2] := by
  obtain ⟨_ | ⟨-, _ | ⟨-, _ | ⟨-, _ | _⟩⟩⟩, -⟩ := h
  exact ⟨(_, _, _), rfl⟩

theorem search_one_iff {name : String} (begins : Call.Begins name) {n : Text} :
    search (Call.one name) line = some n ↔ IsLeftmost (IsCall Spells name [IsNumber]) line [n] :=
  (search_iff fun _ _ => Call.read?_one_iff begins).trans (isLeftmost_map exists_one)

theorem search_macd_iff {fast slow signal : Text} : search Call.macd line = some (fast, slow, signal) ↔
    IsLeftmost (IsCall Spells "macd" [IsNumber, IsNumber, IsNumber]) line [fast, slow, signal] :=
  (search_iff fun _ _ => Call.read?_macd_iff).trans (@isLeftmost_map _ _ _ _ _ exists_three (fast, slow, signal))

theorem search_bands_iff {bars width : Text} : search Call.bands line = some (bars, width) ↔
    IsLeftmost (IsCall Spells "bb" [IsNumber, IsDecimal]) line [bars, width] :=
  (search_iff fun _ _ => Call.read?_bands_iff).trans (@isLeftmost_map _ _ _ _ _ exists_two (bars, width))

theorem search_one_eq_none_iff {name : String} (begins : Call.Begins name) :
    search (Call.one name) line = none ↔ ¬Stands (IsCall Spells name [IsNumber]) line :=
  (search_none_iff fun _ _ => Call.read?_one_iff begins).trans (not_congr (stands_map exists_one))

theorem search_macd_eq_none_iff : search Call.macd line = none ↔
    ¬Stands (IsCall Spells "macd" [IsNumber, IsNumber, IsNumber]) line :=
  (search_none_iff fun _ _ => Call.read?_macd_iff).trans (not_congr (stands_map exists_three))

theorem search_bands_eq_none_iff : search Call.bands line = none ↔
    ¬Stands (IsCall Spells "bb" [IsNumber, IsDecimal]) line :=
  (search_none_iff fun _ _ => Call.read?_bands_iff).trans (not_congr (stands_map exists_two))

theorem parts_of_call {name : String} {kinds : List (Text → Prop)} {numbers : List Text}
    (h : IsLeftmost (IsCall Spells name kinds) line numbers) :
    List.Forall₂ (fun kind n => kind n) kinds numbers ∧ ∀ n ∈ numbers, n <:+: line := by
  obtain ⟨front, rest, rfl, stands, -⟩ := h
  exact ⟨stands.1, fun n member => (stands.part member).trans (List.suffix_append front rest).isInfix⟩

theorem hasColor_iff {color : Option Text} : HasColor line color ↔ lineColor? line = color := by
  have found {token : Text} : search colorToken line = some token ↔ IsLeftmost IsColor line token :=
    search_iff fun _ _ => ColorToken.read?_iff_isColor
  have none : search colorToken line = none ↔ ¬Stands IsColor line :=
    search_none_iff fun _ _ => ColorToken.read?_iff_isColor
  rw [HasColor, lineColor?, ← none]
  simp only [← found]
  cases search colorToken line <;> simp [eq_comm]

theorem calls_iff (ordinary : IsOrdinary line) {name : String}
    (opens : ∃ c ∈ name.toList.head?, CodePoint.char c ∉ ("ta." : Text)) {kinds : List (Text → Prop)}
    {numbers : List Text} : Calls name kinds line numbers ↔ IsLeftmost (IsCall Spells name kinds) line numbers := by
  refine (isLeftmost_marked_iff (unmarked_isCall (opens_of_isInAnyCase opens))).trans
    (isLeftmost_congr fun rest suffix v => ?_)
  exact (isCall_iff (ordinary.of_part suffix.isInfix)).symm

end Found

structure Fits (n : Text) : Prop where
  number : IsNumber n
  short : n.length ≤ 300

theorem Fits.of_part {line n : Text} (ordinary : IsOrdinary line) (number : IsNumber n) (inside : n <:+: line) :
    Fits n :=
  ⟨number, ordinary.short n inside number.2⟩

/-- A row of digits that is read as a number of bars. -/
structure IsReadable (n : Text) : Prop where
  short : n.length ≤ maxDigits
  small : digitsValue n < Double.limit

theorem Fits.isReadable {n : Text} (h : Fits n) : IsReadable n where
  short := h.short.trans (by decide)
  small := (digitsValue_lt n).trans_le ((Nat.pow_le_pow_right (by decide) h.short).trans (by decide +kernel))

theorem IsReadable.whole?_eq {n : Text} (h : IsReadable n) : Descriptor.whole? n = .ok (digitsValue n) :=
  Descriptor.whole?_ok_iff.mpr ⟨h.short, rfl⟩

theorem params?_eq {given : List (Text × Nat)} (small : ∀ p ∈ given, p.2 < Double.limit) :
    Descriptor.params? given = .ok (given.map fun p => (p.1, (Arith.ofInt p.2 : Float))) := by
  obtain ⟨ps, read⟩ := Descriptor.params?_ok_iff.mpr small
  rw [read, (Descriptor.params?_ok read).1]

section Readings
variable {n fast slow signal bars width word : Text} {color : Option Text}

theorem ofPeriod?_eq (kind : IndicatorKind) (h : IsReadable n) :
    Descriptor.ofPeriod? kind n color = .ok (single kind n color) := by
  have params := @params?_eq [("period", digitsValue n)] (by simpa using h.small)
  rw [Descriptor.ofPeriod?, h.whole?_eq, ok_bind, params]
  rfl

theorem ofMacd?_eq (h : IsReadable fast) (h' : IsReadable slow) (h'' : IsReadable signal) :
    Descriptor.ofMacd? fast slow signal color = .ok (triple fast slow signal color) := by
  have params := @params?_eq [("fast", digitsValue fast), ("slow", digitsValue slow), ("signal", digitsValue signal)]
    (by simpa using ⟨h.small, h'.small, h''.small⟩)
  rw [Descriptor.ofMacd?, h.whole?_eq, ok_bind, h'.whole?_eq, ok_bind, h''.whole?_eq, ok_bind, params]
  rfl

theorem ofBands?_eq (h : IsReadable bars) {factor : Decimal} (denotes : Denotes width factor) :
    Descriptor.ofBands? bars width color = .ok (band bars width factor color) := by
  have params := @params?_eq [("period", digitsValue bars)] (by simpa using h.small)
  rw [Descriptor.ofBands?, h.whole?_eq, ok_bind, params, ofText?_of_denotes denotes]
  rfl

theorem ofShort?_eq (h : IsReadable n) {kind : IndicatorKind}
    (named : IndicatorKind.ofName? (Descriptor.lowered word) = some kind) :
    Descriptor.ofShort? word n = .ok (single kind n none) := by
  have params := @params?_eq [("period", digitsValue n)] (by simpa using h.small)
  simp only [Descriptor.ofShort?, h.whole?_eq, ok_bind, named, params]
  rfl

end Readings

/-! ### What is found -/

def foundCalls (line : Text) : List (Option (Descriptor Float)) :=
  [(search (Call.one "sma") line).map (single .sma · (lineColor? line)),
   (search (Call.one "ema") line).map (single .ema · (lineColor? line)),
   (search (Call.one "rsi") line).map (single .rsi · (some "#AB47BC")),
   (search Call.macd line).map fun v => triple v.1 v.2.1 v.2.2 (some "#2196F3"),
   (search Call.bands line).bind fun v => (Decimal.ofText? isDigit v.2).map (band v.1 v.2 · (some "#FF9800"))]

def foundShorts (line : Text) : List (Option (Descriptor Float)) :=
  [(Short.one.read? line).bind fun v => (IndicatorKind.ofName? (Descriptor.lowered v.1)).map (single · v.2 none),
   (Short.macd.read? line).map fun v => triple v.1 v.2.1 v.2.2 none,
   (Short.bands.read? line).bind fun v => (Decimal.ofText? isDigit v.2).map (band v.1 v.2 · none)]

theorem denotes_iff {t : Text} {d : Decimal} (decimal : IsDecimal t) :
    Denotes t d ↔ Decimal.ofText? isDigit t = some d := by
  refine ⟨ofText?_of_denotes, fun read => ?_⟩
  obtain ⟨d', denotes⟩ := exists_denotes decimal
  rw [ofText?_of_denotes denotes] at read
  cases read
  exact denotes

theorem ofName?_of_isInAnyCase {word : Text} (ordinary : IsOrdinary word) {kind : IndicatorKind}
    (named : IsInAnyCase kind.name word) : IndicatorKind.ofName? (Descriptor.lowered word) = some kind := by
  have same : Descriptor.lowered word = word.map (·.map Char.toLower) := by
    rw [Descriptor.lowered, List.map_eq_flatMap]
    refine List.flatMap_congr fun c member => ?_
    exact if_neg (ordinary.letters c member).2.1
  rw [same, named]
  cases kind <;> decide

/-- Bands are found where their numbers are, since a decimal can always be read. -/
theorem exists_band_iff {asks : Text → Text → Prop} {found : Option (Text × Text)}
    (same : ∀ bars width, asks bars width ↔ found = some (bars, width))
    (decimal : ∀ bars width, asks bars width → IsDecimal width) {color : Option Text} {d : Descriptor Float} :
    (∃ bars width factor, asks bars width ∧ Denotes width factor ∧ d = band bars width factor color) ↔
      (found.bind fun v => (Decimal.ofText? isDigit v.2).map (band v.1 v.2 · color)) = some d := by
  simp only [Option.bind_eq_some_iff, Option.map_eq_some_iff]
  constructor
  · rintro ⟨bars, width, factor, asked, denotes, rfl⟩
    exact ⟨(bars, width), (same bars width).mp asked, factor, ofText?_of_denotes denotes, rfl⟩
  · rintro ⟨⟨bars, width⟩, there, factor, read, rfl⟩
    have asked := (same bars width).mpr there
    exact ⟨bars, width, factor, asked, (denotes_iff (decimal bars width asked)).mpr read, rfl⟩

section Lines
variable {line : Text} (ordinary : IsOrdinary line)
include ordinary

theorem callRules_iff : List.Forall₂ (fun rule x => ∀ d, rule d ↔ x = some d) (callRules line) (foundCalls line) := by
  have sma {n : Text} : Calls "sma" [IsNumber] line [n] ↔ search (Call.one "sma") line = some n :=
    (calls_iff ordinary ⟨'s', rfl, by decide⟩).trans (search_one_iff ⟨'s', rfl, by decide⟩).symm
  have ema {n : Text} : Calls "ema" [IsNumber] line [n] ↔ search (Call.one "ema") line = some n :=
    (calls_iff ordinary ⟨'e', rfl, by decide⟩).trans (search_one_iff ⟨'e', rfl, by decide⟩).symm
  have rsi {n : Text} : Calls "rsi" [IsNumber] line [n] ↔ search (Call.one "rsi") line = some n :=
    (calls_iff ordinary ⟨'r', rfl, by decide⟩).trans (search_one_iff ⟨'r', rfl, by decide⟩).symm
  have macd {fast slow signal : Text} : Calls "macd" [IsNumber, IsNumber, IsNumber] line [fast, slow, signal] ↔
      search Call.macd line = some (fast, slow, signal) :=
    (calls_iff ordinary ⟨'m', rfl, by decide⟩).trans search_macd_iff.symm
  have bands {bars width : Text} : Calls "bb" [IsNumber, IsDecimal] line [bars, width] ↔
      search Call.bands line = some (bars, width) :=
    (calls_iff ordinary ⟨'b', rfl, by decide⟩).trans search_bands_iff.symm
  refine .cons ?_ (.cons ?_ (.cons ?_ (.cons ?_ (.cons ?_ .nil))))
  · intro d
    simp [sma, hasColor_iff, eq_comm]
  · intro d
    simp [ema, hasColor_iff, eq_comm]
  · intro d
    simp [rsi, eq_comm]
  · intro d
    simp [macd, eq_comm]
  · intro d
    refine exists_band_iff (fun bars width => bands) fun bars width called => ?_
    obtain ⟨-, rest, -, stands, -⟩ := (bands.trans search_bands_iff).mp called
    obtain ⟨_ | ⟨-, _ | ⟨decimal, -⟩⟩, -⟩ := stands
    exact decimal

theorem read?_short_iff {word n : Text} : Short.one.read? line = some (word, n) ↔
    ∃ kind ∈ [IndicatorKind.sma, .ema, .rsi], IsInAnyCase kind.name word ∧ IsNumber n ∧
      ∃ rest, Spaced 1 [word, n] line rest ∧ Short.IsEnd rest := by
  rw [Short.read?_one_iff]
  constructor
  · rintro ⟨number, named, rest, spaced, ends⟩
    have plain := ordinary.of_part (infix_of_spaced spaced List.mem_cons_self)
    simp only [spells_iff plain] at named
    rcases named with sma | ema | rsi
    · exact ⟨.sma, by decide, sma, number, rest, spaced, ends⟩
    · exact ⟨.ema, by decide, ema, number, rest, spaced, ends⟩
    · exact ⟨.rsi, by decide, rsi, number, rest, spaced, ends⟩
  · rintro ⟨kind, known, named, number, rest, spaced, ends⟩
    have plain := ordinary.of_part (infix_of_spaced spaced List.mem_cons_self)
    refine ⟨number, ?_, rest, spaced, ends⟩
    simp only [spells_iff plain]
    simp only [List.mem_cons, List.not_mem_nil, or_false] at known
    rcases known with rfl | rfl | rfl
    · exact Or.inl named
    · exact Or.inr (Or.inl named)
    · exact Or.inr (Or.inr named)

theorem shortRules_iff :
    List.Forall₂ (fun rule x => ∀ d, rule d ↔ x = some d) (shortRules line) (foundShorts line) := by
  have macd {fast slow signal : Text} :
      IsShort IsInAnyCase "macd" [IsNumber, IsNumber, IsNumber] [fast, slow, signal] line ↔
        Short.macd.read? line = some (fast, slow, signal) :=
    (isShort_iff ordinary).symm.trans Short.read?_macd_iff.symm
  have bands {bars width : Text} : IsShort IsInAnyCase "bb" [IsNumber, IsDecimal] [bars, width] line ↔
      Short.bands.read? line = some (bars, width) :=
    (isShort_iff ordinary).symm.trans Short.read?_bands_iff.symm
  refine .cons ?_ (.cons ?_ (.cons ?_ .nil))
  · intro d
    simp only [Option.bind_eq_some_iff, Option.map_eq_some_iff]
    constructor
    · rintro ⟨kind, known, n, ⟨_ | ⟨number, -⟩, word, rest, named, spaced, ends⟩, rfl⟩
      have plain := ordinary.of_part (infix_of_spaced spaced List.mem_cons_self)
      exact ⟨(word, n), (read?_short_iff ordinary).mpr ⟨kind, known, named, number, rest, spaced, ends⟩, kind,
        ofName?_of_isInAnyCase plain named, rfl⟩
    · rintro ⟨⟨word, n⟩, read, kind', named', rfl⟩
      obtain ⟨kind, known, named, number, rest, spaced, ends⟩ := (read?_short_iff ordinary).mp read
      have plain := ordinary.of_part (infix_of_spaced spaced List.mem_cons_self)
      rw [ofName?_of_isInAnyCase plain named] at named'
      obtain rfl : kind = kind' := Option.some.inj named'
      exact ⟨kind, known, n, ⟨.cons number .nil, word, rest, named, spaced, ends⟩, rfl⟩
  · intro d
    simp [macd, eq_comm]
  · intro d
    refine exists_band_iff (fun bars width => bands) ?_
    rintro bars width ⟨_ | ⟨-, _ | ⟨decimal, -⟩⟩, -⟩
    exact decimal

theorem ofPeriod?_of_search {name : String} (begins : Call.Begins name) {n : Text}
    (found : search (Call.one name) line = some n) (kind : IndicatorKind) (color : Option Text) :
    Descriptor.ofPeriod? kind n color = .ok (single kind n color) := by
  obtain ⟨_ | ⟨number, -⟩, inside⟩ := parts_of_call ((search_one_iff begins).mp found)
  exact ofPeriod?_eq kind (Fits.of_part ordinary number (inside n (by simp))).isReadable

theorem ofMacd?_of_parts {fast slow signal : Text}
    (forms : List.Forall₂ (fun kind n => kind n) [IsNumber, IsNumber, IsNumber] [fast, slow, signal])
    (inside : ∀ n ∈ [fast, slow, signal], n <:+: line) (color : Option Text) :
    Descriptor.ofMacd? fast slow signal color = .ok (triple fast slow signal color) := by
  obtain _ | ⟨first, _ | ⟨second, _ | ⟨third, -⟩⟩⟩ := forms
  have readable (n : Text) (member : n ∈ [fast, slow, signal]) (number : IsNumber n) : IsReadable n :=
    (Fits.of_part ordinary number (inside n member)).isReadable
  exact ofMacd?_eq (readable fast (by simp) first) (readable slow (by simp) second) (readable signal (by simp) third)

theorem ofBands?_of_parts {bars width : Text}
    (forms : List.Forall₂ (fun kind n => kind n) [IsNumber, IsDecimal] [bars, width])
    (inside : ∀ n ∈ [bars, width], n <:+: line) (color : Option Text) : ∃ factor,
      Decimal.ofText? isDigit width = some factor ∧
        Descriptor.ofBands? bars width color = .ok (band bars width factor color) := by
  obtain _ | ⟨number, _ | ⟨decimal, -⟩⟩ := forms
  obtain ⟨factor, denotes⟩ := exists_denotes decimal
  have fits := Fits.of_part ordinary number (inside bars (by simp))
  exact ⟨factor, ofText?_of_denotes denotes, ofBands?_eq fits.isReadable denotes⟩

/-- The first call or short form that is found is the answer. -/
theorem ofLine?_eq : Descriptor.ofLine? line = .ok ((foundCalls line ++ foundShorts line).findSome? id) := by
  unfold Descriptor.ofLine? foundCalls foundShorts
  -- each reading succeeds since the numbers that were found are parts of the line
  cases sma : search (Call.one "sma") line with
  | some n =>
    simp only [ofPeriod?_of_search ordinary ⟨'s', rfl, by decide⟩ sma]
    rfl
  | none =>
  cases ema : search (Call.one "ema") line with
  | some n =>
    simp only [ofPeriod?_of_search ordinary ⟨'e', rfl, by decide⟩ ema]
    rfl
  | none =>
  cases rsi : search (Call.one "rsi") line with
  | some n =>
    simp only [ofPeriod?_of_search ordinary ⟨'r', rfl, by decide⟩ rsi]
    rfl
  | none =>
  cases macd : search Call.macd line with
  | some v =>
    have ⟨forms, inside⟩ := parts_of_call (search_macd_iff.mp macd)
    simp only [ofMacd?_of_parts ordinary forms inside]
    rfl
  | none =>
  cases bands : search Call.bands line with
  | some v =>
    have ⟨forms, inside⟩ := parts_of_call (search_bands_iff.mp bands)
    obtain ⟨factor, read, same⟩ := ofBands?_of_parts ordinary forms inside (some "#FF9800")
    simp only [same, Option.bind_some, read]
    rfl
  | none =>
  cases short : Short.one.read? line with
  | some v =>
    obtain ⟨kind, -, named, number, rest, spaced, -⟩ := (read?_short_iff ordinary).mp short
    have fits := Fits.of_part ordinary number (infix_of_spaced spaced (by simp))
    have kind_named := ofName?_of_isInAnyCase (ordinary.of_part (infix_of_spaced spaced List.mem_cons_self)) named
    simp only [ofShort?_eq fits.isReadable kind_named, Option.bind_some, kind_named]
    rfl
  | none =>
  cases macd : Short.macd.read? line with
  | some v =>
    have asked := Short.read?_macd_iff.mp macd
    simp only [ofMacd?_of_parts ordinary asked.1 fun n => asked.part]
    rfl
  | none =>
  cases bands : Short.bands.read? line with
  | some v =>
    have asked := Short.read?_bands_iff.mp bands
    obtain ⟨factor, read, same⟩ := ofBands?_of_parts ordinary asked.1 (fun n => asked.part) none
    simp only [same, Option.bind_some, read]
    rfl
  | none => rfl

end Lines

/-- An ordinary line asks for what the first rule says that applies to it, and for nothing if none applies. It is never
an error. -/
theorem ofLine?_first {line : Text} (ordinary : IsOrdinary line) :
    ∃ r, Descriptor.ofLine? line = .ok r ∧ ∀ r', First (callRules line ++ shortRules line) r' ↔ r' = r := by
  refine ⟨_, ofLine?_eq ordinary, fun r' => ?_⟩
  exact first_iff (List.rel_append (callRules_iff ordinary) (shortRules_iff ordinary))

theorem isOrdinary_of_length {line : Text} (short : line.length ≤ 300)
    (letters : ∀ c ∈ line, c ≠ .char 'ſ' ∧ c ≠ .char 'İ' ∧ c ≠ .char 'ı') : IsOrdinary line where
  short _ part _ := part.length_le.trans short
  letters := letters

/-- Two calls with foreign digits and wide blanks, and a color after them. -/
def crowdedLine : Text := "plot(ta.EmA\u2003( Close ,٢٠ ) + ema(close, 9), rsi(close, 1.5), color = color.aqua)"

/-- Of two calls the left one counts, with the color that comes after both. -/
theorem ofLine?_first_of_crowded : IsOrdinary crowdedLine ∧
    First (callRules crowdedLine ++ shortRules crowdedLine)
      (some { name := "EMA 20", kind := .ema, params := [("period", 20.0)], color := some "#00BCD4" }) := by
  have ordinary : IsOrdinary crowdedLine := isOrdinary_of_length (by decide) (by decide)
  obtain ⟨r, read, only⟩ := ofLine?_first ordinary
  refine ⟨ordinary, (only _).mpr (Except.ok.inj (Eq.trans ?_ read))⟩
  decide +kernel

end Grammar

end ChartOverlay
