import ChartOverlay.Proofs.Embedded

/-!
# Names of indicators

An indicator of one period is named by its keyword and its period in plain digits. Such a name is a short form, and no
call since it has no bracket. So a line and the name of what it asks for ask for the same, except that the name has no
color (`names_are_scripts`); and lines that give a kind the same period in different ways give it the same name.
-/

namespace ChartOverlay

open Scanner

/-! ### Plain digits -/

theorem ofString_toString (n : Nat) : Text.ofString (toString n) = (Nat.toDigits 10 n).map CodePoint.char := by
  rw [Text.ofString, Text.ofChars, Nat.toString_eq_repr, Nat.toList_repr]

theorem digitValue_of_isDigit {c : Char} (digit : c.isDigit = true) : digitValue c = c.toNat - 48 := by
  simp only [Char.isDigit, Bool.and_eq_true, decide_eq_true_eq] at digit
  have lower : 48 ≤ c.toNat := digit.1
  have upper : c.toNat ≤ 57 := digit.2
  simp [digitValue, digitValue?, zeroDigits, CodePoint.code, lower, upper]

theorem isDigit_of_mem_toDigits {n : Nat} {c : Char} (member : c ∈ Nat.toDigits 10 n) : c.isDigit = true :=
  Nat.isDigit_of_mem_toDigits (by decide) (by decide) member

/-- A number is read as what it was printed from. -/
theorem digitsValue_toString (n : Nat) : digitsValue (toString n) = n := by
  calc digitsValue (toString n)
    _ = (Nat.toDigits 10 n).foldl (fun sum (c : Char) => 10 * sum + digitValue c) 0 := by
      rw [ofString_toString, digitsValue, List.foldl_map]
    _ = (Nat.toDigits 10 n).foldl (fun sum c => 10 * sum + (c.toNat - 48)) 0 := by
      refine List.foldl_ext _ _ _ fun sum c member => ?_
      rw [digitValue_of_isDigit (isDigit_of_mem_toDigits member)]
    _ = n := Nat.ofDigitChars_toDigits (by decide) (by decide)

theorem isNumber_toString (n : Nat) : IsNumber (toString n) := by
  rw [ofString_toString]
  refine ⟨?_, ?_⟩
  · rw [Ne, List.map_eq_nil_iff]
    exact List.ne_nil_of_length_pos Nat.length_toDigits_pos
  · intro c member
    obtain ⟨d, printed, rfl⟩ := List.mem_map.mp member
    exact isDigit_of_isAsciiDigit (isDigit_of_mem_toDigits printed)

theorem length_toString_le {n k : Nat} (pos : 0 < k) : (toString n : Text).length ≤ k ↔ n < 10 ^ k := by
  rw [ofString_toString, List.length_map]
  exact Nat.length_toDigits_le_iff (by decide) pos

namespace Grammar

/-! ### Numbers that are read -/

/-- The plain digits of a number are read if those are that it was read from. -/
theorem IsReadable.toString {n : Text} (h : IsReadable n) : IsReadable (toString (digitsValue n)) := by
  constructor
  · rw [length_toString_le (by decide)]
    exact (digitsValue_lt n).trans_le (Nat.pow_le_pow_right (by decide) h.short)
  · rw [digitsValue_toString]
    exact h.small

section Readings
variable {kind : IndicatorKind} {n word : Text} {color : Option Text} {d : Descriptor Float}

theorem ofPeriod?_ok_iff : Descriptor.ofPeriod? kind n color = .ok d ↔ IsReadable n ∧ d = single kind n color := by
  constructor
  · intro h
    obtain ⟨period, read, h⟩ := bind_ok h
    obtain ⟨short, rfl⟩ := Descriptor.whole?_ok_iff.mp read
    obtain ⟨ps, finite, h⟩ := bind_ok h
    obtain rfl := pure_ok h
    have small := Descriptor.params?_ok_iff.mp ⟨ps, finite⟩
    refine ⟨⟨short, small _ List.mem_cons_self⟩, ?_⟩
    rw [(Descriptor.params?_ok finite).1]
    rfl
  · rintro ⟨readable, rfl⟩
    exact ofPeriod?_eq kind readable

/-- The kinds of one period, in the order in which a line is searched for their calls. -/
def singles : List IndicatorKind := [.sma, .ema, .rsi]

theorem cases_of_single (known : kind ∈ singles) : kind = .sma ∨ kind = .ema ∨ kind = .rsi := by
  simpa [singles] using known

theorem name_mem_shortNames (known : kind ∈ singles) : kind.name ∈ shortNames := by
  revert kind
  decide

theorem exists_single : ∀ letters ∈ shortNames, ∃ kind ∈ singles, kind.name = letters := by
  decide

theorem ofShort?_ok_iff (known : kind ∈ singles) (named : Spells kind.name word) :
    Descriptor.ofShort? word n = .ok d ↔ word.IsAscii ∧ IsReadable n ∧ d = single kind n none := by
  have told := Descriptor.ofName?_lowered (name_mem_shortNames known) named
  by_cases ascii : word.IsAscii
  · have same : IndicatorKind.ofName? (Descriptor.lowered word) = some kind := by
      rw [Descriptor.lowered_of_spells named ascii]
      cases kind <;> decide
    have alike : (Descriptor.ofShort? word n : Except ScriptError (Descriptor Float)) =
        Descriptor.ofPeriod? kind n none := by
      rw [Descriptor.ofShort?, same]
      rfl
    rw [alike, ofPeriod?_ok_iff]
    exact (and_iff_right ascii).symm
  · refine iff_of_false ?_ fun h => ascii h.1
    intro h
    obtain ⟨period, -, h⟩ := bind_ok h
    cases read : IndicatorKind.ofName? (Descriptor.lowered word) with
    | none =>
      rw [read] at h
      cases h
    | some other => exact ascii (told.mp ⟨other, read⟩)

end Readings

/-! ### Lines without brackets -/

section Lines
variable {line n word : Text} {kind : IndicatorKind}

theorem bracket_of_stands {spelled : Spelling} {name : String} {kinds : List (Text → Prop)}
    (h : Stands (IsCall spelled name kinds) line) : CodePoint.char '(' ∈ line := by
  obtain ⟨front, rest, numbers, rfl, -, word, close, behind, -, -, spaced⟩ := h
  have bracket : ("(" : Text) <:+: rest := infix_of_spaced spaced (by simp [callParts])
  exact List.mem_append_right front (bracket.subset (by decide))

theorem bracket_notMem_of_spells {letters : String} (plain : '(' ∉ letters.toList) (h : Spells letters word) :
    CodePoint.char '(' ∉ word := by
  unfold Spells at h
  generalize letters.toList = row at h plain
  induction h with
  | nil => exact List.not_mem_nil
  | @cons letter c row word first _ ih =>
    rw [List.mem_cons, not_or] at plain ⊢
    refine ⟨?_, ih plain.2⟩
    rintro rfl
    have same : letter = '(' := by simpa [standsFor, CodePoint.map, eq_comm] using first
    exact plain.1 same.symm

theorem bracket_notMem_of_read? (h : Short.one.read? line = some (word, n)) : CodePoint.char '(' ∉ line := by
  obtain ⟨number, named, rest, ⟨b, u, -, rfl, rfl⟩, ends⟩ := Short.read?_one_iff.mp h
  have keyword : CodePoint.char '(' ∉ word := by
    rcases named with spells | spells | spells
    · exact bracket_notMem_of_spells (by decide) spells
    · exact bracket_notMem_of_spells (by decide) spells
    · exact bracket_notMem_of_spells (by decide) spells
  have digits : CodePoint.char '(' ∉ n := by
    intro member
    exact absurd (number.2 _ member) (by decide)
  have behind : CodePoint.char '(' ∉ rest := by
    rcases ends with rfl | rfl <;> decide
  simp only [List.mem_append, keyword, digits, behind, b.notMem (by decide : isBlank '(' = false), or_self,
    not_false_eq_true]

/-- A line that is read as a short form asks for what that says, since it cannot have a call. -/
theorem asked_of_read? (h : Short.one.read? line = some (word, n)) : Asked.ofLine? line = some (.short word n) := by
  have silent {name : String} {kinds : List (Text → Prop)} : ¬Stands (IsCall Spells name kinds) line :=
    mt bracket_of_stands (bracket_notMem_of_read? h)
  have sma := (@search_one_eq_none_iff line "sma" ⟨'s', rfl, by decide⟩).mpr silent
  have ema := (@search_one_eq_none_iff line "ema" ⟨'e', rfl, by decide⟩).mpr silent
  have rsi := (@search_one_eq_none_iff line "rsi" ⟨'r', rfl, by decide⟩).mpr silent
  have macd := search_macd_eq_none_iff.mpr (@silent _ _)
  have bands := search_bands_eq_none_iff.mpr (@silent _ _)
  rw [Asked.ofLine?, sma, ema, rsi, macd, bands, h]

/-! ### Wordings -/

/-- A line asks for a kind with one period: it has a call of the kind and none of a kind that comes first, or it is
the short form. -/
inductive Asks (line : Text) (kind : IndicatorKind) (n : Text) : Prop
  | call (leftmost : IsLeftmost (Marked (IsCall Spells kind.name [IsNumber])) line [n])
      (first : ∀ earlier ∈ singles.takeWhile (· ≠ kind), ¬Stands (IsCall Spells earlier.name [IsNumber]) line)
  | short (written : IsShort Spells kind.name [IsNumber] [n] line)

/-- A line is a short form whose keyword is written with a letter that is not of ASCII. -/
def IsForeign (line : Text) (kind : IndicatorKind) (n : Text) : Prop :=
  IsShort (fun letters word => Spells letters word ∧ ¬word.IsAscii) kind.name [IsNumber] [n] line

theorem head_name (kind : IndicatorKind) :
    ∃ c ∈ kind.name.toList.head?, isBlank c = false ∧ CodePoint.char c ∉ ("ta." : Text) := by
  cases kind with
  | sma => exact ⟨'s', rfl, by decide, by decide⟩
  | ema => exact ⟨'e', rfl, by decide, by decide⟩
  | rsi => exact ⟨'r', rfl, by decide, by decide⟩
  | macd => exact ⟨'m', rfl, by decide, by decide⟩
  | bb => exact ⟨'b', rfl, by decide, by decide⟩

theorem begins_name (kind : IndicatorKind) : Call.Begins kind.name := by
  obtain ⟨c, first, visible, -⟩ := head_name kind
  exact ⟨c, first, visible⟩

theorem opens_of_spells {letters : String} (opens : ∃ c ∈ letters.toList.head?, CodePoint.char c ∉ ("ta." : Text))
    (word : Text) (named : Spells letters word) : ∃ c ∈ word.head?, c.map Char.toLower ∉ ("ta." : Text) := by
  obtain ⟨letter, first, other⟩ := opens
  obtain ⟨row, same⟩ := List.head?_eq_some_iff.mp first
  unfold Spells at named
  rw [same] at named
  obtain ⟨c, word, stands, -, rfl⟩ := List.forall₂_cons_left_iff.mp named
  refine ⟨c, rfl, ?_⟩
  simp only [standsFor, Bool.or_eq_true, Bool.and_eq_true, decide_eq_true_eq] at stands
  rcases stands with (lower | ⟨-, rfl⟩) | ⟨-, rfl | rfl⟩
  · rwa [lower]
  · decide
  · decide
  · decide

theorem search_single_iff (kind : IndicatorKind) : search (Call.one kind.name) line = some n ↔
    IsLeftmost (Marked (IsCall Spells kind.name [IsNumber])) line [n] := by
  obtain ⟨c, first, -, other⟩ := head_name kind
  exact (search_one_iff (begins_name kind)).trans
    (isLeftmost_marked_iff (unmarked_isCall (opens_of_spells ⟨c, first, other⟩))).symm

theorem asked_single_iff (known : kind ∈ singles) : (∃ color, Asked.ofLine? line = some (.single kind n color)) ↔
    IsLeftmost (Marked (IsCall Spells kind.name [IsNumber])) line [n] ∧
      ∀ earlier ∈ singles.takeWhile (· ≠ kind), ¬Stands (IsCall Spells earlier.name [IsNumber]) line := by
  simp only [← search_single_iff, ← search_one_eq_none_iff (begins_name _)]
  have known := cases_of_single known
  unfold Asked.ofLine?
  cases sma : search (Call.one "sma") line with
  | some m => rcases known with rfl | rfl | rfl <;> simp [singles, IndicatorKind.name, sma]
  | none =>
  cases ema : search (Call.one "ema") line with
  | some m => rcases known with rfl | rfl | rfl <;> simp [singles, IndicatorKind.name, sma, ema]
  | none =>
  cases rsi : search (Call.one "rsi") line with
  | some m => rcases known with rfl | rfl | rfl <;> simp [singles, IndicatorKind.name, sma, ema, rsi]
  | none =>
  -- what is found later is no call of one period
  have silent : search (Call.one kind.name) line = none := by
    rcases known with rfl | rfl | rfl <;> assumption
  rw [silent]
  refine iff_of_false ?_ nofun
  rintro ⟨color, asked⟩
  dsimp only at asked
  repeat' split at asked
  all_goals cases asked

theorem read?_of_spells {rest : Text} (known : kind ∈ singles) (named : Spells kind.name word) (number : IsNumber n)
    (spaced : Spaced 1 [word, n] line rest) (ends : Short.IsEnd rest) : Short.one.read? line = some (word, n) := by
  refine Short.read?_one_iff.mpr ⟨number, ?_, rest, spaced, ends⟩
  rcases cases_of_single known with rfl | rfl | rfl
  · exact Or.inl named
  · exact Or.inr (Or.inl named)
  · exact Or.inr (Or.inr named)

theorem isShort_single_iff (known : kind ∈ singles) {spelled : Spelling}
    (sound : ∀ word, spelled kind.name word → Spells kind.name word) :
    IsShort spelled kind.name [IsNumber] [n] line ↔
      ∃ word, spelled kind.name word ∧ Short.one.read? line = some (word, n) := by
  constructor
  · rintro ⟨_ | ⟨number, -⟩, word, rest, named, spaced, ends⟩
    exact ⟨word, named, read?_of_spells known (sound word named) number spaced ends⟩
  · rintro ⟨word, named, read⟩
    obtain ⟨number, -, rest, spaced, ends⟩ := Short.read?_one_iff.mp read
    exact ⟨.cons number .nil, word, rest, named, spaced, ends⟩

theorem some_map_ok_iff {ε β : Type} {x : Except ε β} {r : Option β} :
    some <$> x = .ok r ↔ ∃ d, x = .ok d ∧ r = some d := by
  constructor
  · intro h
    obtain ⟨d, read, rfl⟩ := map_ok h
    exact ⟨d, read, rfl⟩
  · rintro ⟨d, rfl, rfl⟩
    rfl

theorem ofLine?_of_single {color : Option Text} (asked : Asked.ofLine? line = some (.single kind n color))
    {r : Option (Descriptor Float)} :
    Descriptor.ofLine? line = .ok r ↔ IsReadable n ∧ r = some (single kind n color) := by
  rw [Asked.ofLine?_eq, asked, Option.mapM_some, some_map_ok_iff]
  simp only [Asked.descriptor?, ofPeriod?_ok_iff, and_assoc, exists_and_left, exists_eq_left]

theorem ofLine?_of_short (known : kind ∈ singles) (named : Spells kind.name word)
    (read : Short.one.read? line = some (word, n)) {r : Option (Descriptor Float)} :
    Descriptor.ofLine? line = .ok r ↔ word.IsAscii ∧ IsReadable n ∧ r = some (single kind n none) := by
  rw [Asked.ofLine?_eq, asked_of_read? read, Option.mapM_some, some_map_ok_iff]
  simp only [Asked.descriptor?, ofShort?_ok_iff known named, and_assoc, exists_and_left, exists_eq_left]

/-- What a line gives that asks for a kind with one period: it fails only with a number that cannot be read or a
foreign keyword. -/
theorem ofLine?_of_asks (known : kind ∈ singles) (asks : Asks line kind n) : ∃ color, ∀ r : Option (Descriptor Float),
    Descriptor.ofLine? line = .ok r ↔
      IsReadable n ∧ ¬IsForeign line kind n ∧ r = some (single kind n color) := by
  have foreign : IsForeign line kind n ↔
      ∃ word, (Spells kind.name word ∧ ¬word.IsAscii) ∧ Short.one.read? line = some (word, n) :=
    isShort_single_iff known fun word h => h.1
  cases asks with
  | call leftmost first =>
    obtain ⟨color, asked⟩ := (asked_single_iff known).mpr ⟨leftmost, first⟩
    have plain : ¬IsForeign line kind n := by
      rw [foreign]
      rintro ⟨word, -, read⟩
      rw [asked_of_read? read] at asked
      cases asked
    refine ⟨color, fun r => ?_⟩
    rw [ofLine?_of_single asked, and_iff_right plain]
  | short written =>
    obtain ⟨word, named, read⟩ := (isShort_single_iff known fun word h => h).mp written
    have plain : ¬IsForeign line kind n ↔ word.IsAscii := by
      rw [foreign, not_iff_comm]
      constructor
      · intro strange
        exact ⟨word, ⟨named, strange⟩, read⟩
      · rintro ⟨other, ⟨-, strange⟩, again⟩
        obtain ⟨rfl, -⟩ := Prod.mk.inj (Option.some.inj (read.symm.trans again))
        exact strange
    refine ⟨none, fun r => ?_⟩
    rw [ofLine?_of_short known named read, plain, and_left_comm]

/-- Every indicator of one period is asked for in one of these ways. -/
theorem asks_of_ofLine? {d : Descriptor Float} (h : Descriptor.ofLine? line = .ok (some d)) (known : d.kind ∈ singles) :
    ∃ n, Asks line d.kind n := by
  rw [Asked.ofLine?_eq] at h
  cases found : Asked.ofLine? line with
  | none =>
    rw [found] at h
    cases h
  | some asked =>
    rw [found, Option.mapM_some] at h
    have read := Descriptor.ok_of_some h
    cases asked with
    | single kind n color =>
      obtain ⟨-, rfl⟩ := ofPeriod?_ok_iff.mp read
      obtain ⟨leftmost, first⟩ := (asked_single_iff known).mp ⟨color, found⟩
      exact ⟨n, .call leftmost first⟩
    | macd fast slow signal color =>
      obtain ⟨_, -, read⟩ := bind_ok read
      obtain ⟨_, -, read⟩ := bind_ok read
      obtain ⟨_, -, read⟩ := bind_ok read
      obtain ⟨_, -, read⟩ := bind_ok read
      obtain rfl := pure_ok read
      have other : IndicatorKind.macd ∉ singles := by decide
      exact absurd known other
    | bands bars width color =>
      obtain ⟨_, -, read⟩ := bind_ok read
      obtain ⟨_, -, read⟩ := bind_ok read
      obtain rfl := pure_ok read
      have other : IndicatorKind.bb ∉ singles := by decide
      exact absurd known other
    | short word n =>
      have short := Asked.read?_of_ofLine? found
      obtain ⟨letters, member, named⟩ := spells_of_short short
      obtain ⟨kind, single, rfl⟩ := exists_single letters member
      obtain ⟨-, -, rfl⟩ := (ofShort?_ok_iff single named).mp read
      exact ⟨n, .short ((isShort_single_iff single fun _ h => h).mpr ⟨word, named, short⟩)⟩

theorem spells_keyword (known : kind ∈ singles) : Spells kind.name kind.keyword := by
  have read (letters : String) (keyword : Text) (h : word letters keyword = some (keyword, [])) :
      Spells letters keyword := (word_iff.mp h).1
  rcases cases_of_single known with rfl | rfl | rfl
  · exact read _ _ (by decide)
  · exact read _ _ (by decide)
  · exact read _ _ (by decide)

/-- The name of an indicator of one period is a short form of it. -/
theorem ofLine?_name (known : kind ∈ singles) (readable : IsReadable n) {color : Option Text} :
    Descriptor.ofLine? (single kind n color).name = .ok (some (single kind n none)) := by
  have named := spells_keyword known
  have spaced : Spaced 1 [(kind.keyword : Text), (toString (digitsValue n) : Text)] (single kind n color).name [] :=
    ⟨⟨" ", by decide⟩, toString (digitsValue n), by decide, by simp [single], by simp [Spaced]⟩
  have read := read?_of_spells known named (isNumber_toString (digitsValue n)) spaced (Or.inl rfl)
  have ascii : (kind.keyword : Text).IsAscii := by
    unfold Text.IsAscii
    cases kind <;> decide
  rw [ofLine?_of_short known named read]
  refine ⟨ascii, readable.toString, ?_⟩
  rw [single, single, digitsValue_toString]

end Lines

/-- What a line asks for with one period is named by a line that asks for the same without a color. A line that asks
for a kind with one period is read unless its number is too long or too large, or its keyword foreign; and lines that
ask for the same kind with the same number give the same name and parameters. -/
theorem names_are_scripts :
    (∀ (line : Text) (d : Descriptor Float), Descriptor.ofLine? line = .ok (some d) → d.kind ∈ singles →
      (∃ n, Asks line d.kind n ∧ d = single d.kind n d.color) ∧
        Descriptor.ofLine? d.name = .ok (some { d with color := none })) ∧
    (∀ (line : Text) (kind : IndicatorKind) (n : Text), kind ∈ singles → Asks line kind n →
      ((∃ r : Option (Descriptor Float), Descriptor.ofLine? line = .ok r) ↔
        IsReadable n ∧ ¬IsForeign line kind n)) ∧
    ∀ (line line' : Text) (kind : IndicatorKind) (n n' : Text) (r r' : Option (Descriptor Float)), kind ∈ singles →
      Asks line kind n → Asks line' kind n' → digitsValue n = digitsValue n' →
      Descriptor.ofLine? line = .ok r → Descriptor.ofLine? line' = .ok r' →
        ∃ d d', r = some d ∧ r' = some d' ∧ d.kind = kind ∧ d'.kind = kind ∧ d.name = d'.name ∧
          d.params = d'.params := by
  refine ⟨?_, ?_, ?_⟩
  · intro line d h known
    obtain ⟨n, asks⟩ := asks_of_ofLine? h known
    obtain ⟨color, read⟩ := ofLine?_of_asks known asks
    obtain ⟨readable, -, same⟩ := (read _).mp h
    obtain rfl : color = d.color := congrArg Descriptor.color (Option.some.inj same).symm
    have whole : d = single d.kind n d.color := Option.some.inj same
    refine ⟨⟨n, asks, whole⟩, ?_⟩
    rw [whole]
    exact ofLine?_name known readable
  · intro line kind n known asks
    obtain ⟨color, read⟩ := ofLine?_of_asks known asks
    constructor
    · rintro ⟨r, h⟩
      obtain ⟨readable, plain, -⟩ := (read r).mp h
      exact ⟨readable, plain⟩
    · rintro ⟨readable, plain⟩
      exact ⟨_, (read _).mpr ⟨readable, plain, rfl⟩⟩
  · intro line line' kind n n' r r' known asks asks' same h h'
    obtain ⟨color, read⟩ := ofLine?_of_asks known asks
    obtain ⟨color', read'⟩ := ofLine?_of_asks known asks'
    obtain ⟨-, -, rfl⟩ := (read r).mp h
    obtain ⟨-, -, rfl⟩ := (read' r').mp h'
    refine ⟨_, _, rfl, rfl, rfl, rfl, ?_, ?_⟩
    · rw [single, single, same]
    · rw [single, single, same]

/-- A call in capitals, with foreign digits and a color. -/
def loudCall : Text := "plot(TA.EMA ( Close , ٠٢٠ ), color = #ff0000)"

/-- The short form of the same. -/
def paddedShort : Text := "eMa\t0020\n"

theorem names_are_scripts_of_loudCall :
    ∃ d d' : Descriptor Float, Descriptor.ofLine? loudCall = .ok (some d) ∧
      Descriptor.ofLine? paddedShort = .ok (some d') ∧ ¬IsForeign paddedShort .ema "0020" ∧ d.name = d'.name ∧
      d.params = d'.params ∧ Descriptor.ofLine? d.name = .ok (some { d with color := none }) := by
  have ⟨renamed, readable, agree⟩ := names_are_scripts
  have call : Descriptor.ofLine? loudCall = .ok (some
      { name := "EMA 20", kind := .ema, params := [("period", (20.0 : Float))], color := some "#ff0000" }) := by
    decide +kernel
  have short : Descriptor.ofLine? paddedShort = .ok (some
      { name := "EMA 20", kind := .ema, params := [("period", (20.0 : Float))] }) := by
    decide +kernel
  have known : IndicatorKind.ema ∈ singles := by decide
  have asks : Asks loudCall .ema "٠٢٠" := by
    refine .call ((search_single_iff .ema).mp (by decide +kernel)) ?_
    intro earlier member
    obtain rfl : earlier = .sma := List.mem_singleton.mp member
    exact (search_one_eq_none_iff (begins_name .sma)).mp (by decide +kernel)
  have asks' : Asks paddedShort .ema "0020" := by
    have named : Spells "ema" "eMa" := (word_iff.mp (by decide : word "ema" "eMa" = some (("eMa" : Text), []))).1
    exact .short ((isShort_single_iff known fun _ h => h).mpr ⟨"eMa", named, by decide +kernel⟩)
  have same : digitsValue ("٠٢٠" : Text) = digitsValue ("0020" : Text) := by decide
  obtain ⟨d, d', first, second, -, -, names, params⟩ := agree _ _ .ema _ _ _ _ known asks asks' same call short
  obtain rfl := Option.some.inj first
  obtain rfl := Option.some.inj second
  have plain := ((readable paddedShort .ema "0020" known asks').mp ⟨_, short⟩).2
  exact ⟨_, _, call, short, plain, names, params, (renamed _ _ call known).2⟩

end Grammar

end ChartOverlay
