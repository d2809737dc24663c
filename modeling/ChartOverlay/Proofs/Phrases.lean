import ChartOverlay.Proofs.Tokens

/-!
# Phrases of script lines

A line says something by a call or by a short form: names and numbers in a row, with blanks between them. The scanners
of calls, of short forms and of colors read exactly these (`read?_one_iff` and its like).
-/

namespace ChartOverlay

open Scanner

/-! ### What is written -/

def IsNumber (t : Text) : Prop := t ≠ [] ∧ ∀ c ∈ t, isDigit c = true

/-- A number, perhaps with a point and more digits or none. -/
def IsDecimal (t : Text) : Prop :=
  IsNumber t ∨
    ∃ whole fraction, IsNumber whole ∧ (∀ c ∈ fraction, isDigit c = true) ∧ t = whole ++ .char '.' :: fraction

abbrev Spelling := String → Text → Prop

def IsInAnyCase : Spelling := fun letters t => t.map (·.map Char.toLower) = letters

/-- The numbers of a call, each after a comma, and the closing bracket. -/
def argumentParts (numbers : List Text) : List Text :=
  numbers.flatMap (fun n => ([",", n] : List Text)) ++ ([")"] : List Text)

def callParts (word close : Text) (numbers : List Text) : List Text := word :: "(" :: close :: argumentParts numbers

/-- A text starts with a call: a function of the closes and of some numbers. -/
def IsCall (spelled : Spelling) (name : String) (kinds : List (Text → Prop)) (numbers : List Text) (t : Text) : Prop :=
  List.Forall₂ (fun kind n => kind n) kinds numbers ∧
    ∃ word close rest, spelled name word ∧ spelled "close" close ∧ Spaced 0 (callParts word close numbers) t rest

/-- A text is a short form, but for a line break at its end. -/
def IsShort (spelled : Spelling) (name : String) (kinds : List (Text → Prop)) (numbers : List Text) (t : Text) : Prop :=
  List.Forall₂ (fun kind n => kind n) kinds numbers ∧
    ∃ word rest, spelled name word ∧ Spaced 1 (word :: numbers) t rest ∧ (rest = [] ∨ rest = ['\n'])

def IsHexColor (t : Text) : Prop :=
  ∃ digits, digits.length = 6 ∧ (∀ c ∈ digits, isHexDigit c = true) ∧ t = .char '#' :: digits

def IsColorName (t : Text) : Prop := ∃ name, name ≠ [] ∧ (∀ c ∈ name, isWord c = true) ∧ t = "color." ++ name

/-- A text starts with the word for a color, a sign and the token of a color. -/
def IsColor (token t : Text) : Prop :=
  ∃ sign rest : Text, (sign = "=" ∨ sign = ":") ∧ Spaced 0 ["color", sign, token] t rest ∧
    (IsHexColor token ∨ IsColorName token ∧ ∀ c ∈ rest.head?, isWord c = false)

/-! ### Tokens -/

theorem visible_of_standsFor {letter : Char} {c : CodePoint} (visible : isBlank letter = false)
    (h : standsFor letter c = true) : isBlank c = false := by
  rw [← Bool.not_eq_true]
  intro blank
  simp only [standsFor, Bool.or_eq_true, Bool.and_eq_true, decide_eq_true_eq] at h
  rcases h with (same | ⟨-, rfl⟩) | ⟨-, rfl | rfl⟩
  · cases c with
    | half offset => cases same
    | char d =>
      rw [CodePoint.map, Char.toLower] at same
      split at same
      · rename_i upper
        have lower : 65 ≤ d.toNat := upper.1
        have top : d.toNat ≤ 90 := upper.2
        have none : ∀ n ≤ 90, 65 ≤ n → isBlank (.ofCode n) = false := by decide
        have plain := none d.toNat top lower
        rw [← CodePoint.code, CodePoint.ofCode_code, blank] at plain
        cases plain
      · obtain rfl := CodePoint.char.inj same
        rw [visible] at blank
        cases blank
  · exact absurd blank (by decide)
  · exact absurd blank (by decide)
  · exact absurd blank (by decide)

theorem visible_of_spells {letters : String} {v : Text} (plain : ∃ c ∈ letters.toList.head?, isBlank c = false)
    (spells : Spells letters v) : ∃ c t, v = c :: t ∧ isBlank c = false := by
  obtain ⟨letter, first, visible⟩ := plain
  obtain ⟨letters', same⟩ := List.head?_eq_some_iff.mp first
  rw [Spells, same] at spells
  obtain ⟨c, t, stands, -, rfl⟩ := List.forall₂_cons_left_iff.mp spells
  exact ⟨c, t, rfl, visible_of_standsFor visible stands⟩

theorem IsNumber.visible {v : Text} (h : IsNumber v) : ∃ c t, v = c :: t ∧ isBlank c = false := by
  obtain ⟨c, t, rfl⟩ := List.exists_cons_of_ne_nil h.1
  exact ⟨c, t, rfl, isBlank_of_isDigit (h.2 c List.mem_cons_self)⟩

theorem isDigit_of_isBlank {c : CodePoint} (blank : isBlank c = true) : isDigit c = false := by
  rw [← Bool.not_eq_true]
  intro digit
  rw [isBlank_of_isDigit digit] at blank
  cases blank

namespace Scanner.Token

def mark (c : Char) (visible : isBlank c = false := by decide) : Token where
  scan := (fun d => [d]) <$> point (· = c)
  form v := v = [.char c]
  visible := by
    rintro _ rfl
    exact ⟨c, [], rfl, visible⟩
  reads {t v rest} := by
    simp only [map_iff, point_iff, decide_eq_true_eq]
    constructor
    · rintro ⟨_, ⟨rfl, rfl⟩, rfl⟩
      exact ⟨rfl, rfl, fun _ _ => trivial⟩
    · rintro ⟨rfl, rfl, -⟩
      exact ⟨_, ⟨rfl, rfl⟩, rfl⟩

def word (letters : String) (plain : ∃ c ∈ letters.toList.head?, isBlank c = false) : Token where
  scan := Scanner.word letters
  form := Spells letters
  visible := visible_of_spells plain
  reads := by simp [word_iff]

def digits : Token where
  scan := Scanner.digits
  form := IsNumber
  goesOn _ := isDigit
  visible := IsNumber.visible
  ends := isDigit_of_isBlank
  reads := some1_iff

theorem notMem_of_isNumber {v : Text} (h : IsNumber v) : CodePoint.char '.' ∉ v := by
  intro member
  have digit := h.2 _ member
  revert digit
  decide

theorem plainDecimal_iff {t v rest : Text} : Call.plainDecimal t = some (v, rest) ↔
    IsDecimal v ∧ t = v ++ rest ∧
      ∀ c ∈ rest.head?, (isDigit c || (c = '.' && decide (CodePoint.char '.' ∉ v))) = false := by
  have unread (whole t : Text) : (do
      let mark ← point (· = .char '.')
      return whole ++ mark :: (← many isDigit) : Scanner Text) t = none ↔ ∀ c ∈ t.head?, c ≠ .char '.' := by
    rcases t with _ | ⟨c, t⟩
    · simp [bind, StateT.bind, point]
    · by_cases same : c = .char '.' <;> simp [bind, StateT.bind, pure, StateT.pure, point, many, same]
  simp only [Call.plainDecimal, bind_iff, orElse_iff, unread, pure_iff, Scanner.digits, some1_iff, point_iff, many_iff]
  constructor
  · rintro ⟨whole, middle, ⟨number, rfl, stops⟩,
      ⟨_, _, ⟨point, rfl⟩, fraction, _, ⟨rfl, digits, stops'⟩, rfl, rfl⟩ | ⟨pointless, rfl, rfl⟩⟩
    · obtain rfl := of_decide_eq_true point
      refine ⟨Or.inr ⟨whole, fraction, number, digits, rfl⟩, by simp, ?_⟩
      intro c first
      simp [stops' c first]
    · refine ⟨Or.inl number, rfl, ?_⟩
      intro c first
      simp [stops c first, pointless c first]
  · rintro ⟨number | ⟨whole, fraction, number, digits, rfl⟩, rfl, stops⟩
    · have pointless := notMem_of_isNumber number
      have apart : ∀ c ∈ rest.head?, isDigit c = false ∧ c ≠ .char '.' := by
        intro c first
        simpa [pointless] using stops c first
      exact ⟨v, rest, ⟨number, rfl, fun c first => (apart c first).1⟩,
        Or.inr ⟨fun c first => (apart c first).2, rfl, rfl⟩⟩
    · refine ⟨whole, .char '.' :: (fraction ++ rest), ⟨number, by simp, ?_⟩,
        Or.inl ⟨_, _, ⟨by simp, rfl⟩, fraction, rest, ⟨rfl, digits, ?_⟩, rfl, rfl⟩⟩
      · intro c first
        obtain rfl : CodePoint.char '.' = c := by simpa using first
        decide
      · intro c first
        have := stops c first
        simp at this
        exact this

/-- A decimal goes on with digits, and with a point if it has none. -/
def decimal : Token where
  scan := Call.plainDecimal
  form := IsDecimal
  goesOn v c := isDigit c || (c = '.' && decide (CodePoint.char '.' ∉ v))
  visible := by
    rintro v (number | ⟨whole, fraction, number, -, rfl⟩)
    · exact number.visible
    · obtain ⟨c, t, rfl, visible⟩ := number.visible
      exact ⟨c, t ++ .char '.' :: fraction, rfl, visible⟩
  ends {v c} blank := by
    rw [isDigit_of_isBlank blank, Bool.false_or]
    have other : c ≠ '.' := by
      rintro rfl
      revert blank
      decide
    simp [other]
  reads := plainDecimal_iff

end Scanner.Token

/-- Digits with a point in or around them, or with none, are read as a decimal. -/
theorem ofText?_digits {whole : Text} {fraction : Option Text} (digits : ∀ c ∈ whole, isDigit c = true)
    (digits' : ∀ c ∈ fraction.getD [], isDigit c = true) (filled : whole ≠ [] ∨ fraction.getD [] ≠ []) :
    Decimal.ofText? isDigit (whole ++ fraction.elim [] (.char '.' :: ·)) =
      some { digits := digitsValue (whole ++ fraction.getD []), exponent := -(fraction.getD []).length } := by
  have first : Scanner.many isDigit (whole ++ fraction.elim [] (.char '.' :: ·)) =
      some (whole, fraction.elim [] (.char '.' :: ·)) := by
    refine many_append digits fun c head => ?_
    rcases fraction with _ | f
    · cases head
    · obtain rfl : CodePoint.char '.' = c := by simpa using head
      decide
  have second : ((do discard (point (· = '.')); Scanner.many isDigit) <|> pure [] : Scanner Text)
      (fraction.elim [] (.char '.' :: ·)) = some (fraction.getD [], []) := by
    rcases fraction with _ | f
    · rfl
    · have all := @many_append f [] isDigit digits' nofun
      rw [List.append_nil] at all
      refine orElse_of_some ?_
      rw [Option.elim_some, bind_of_some (Input.discard_point_cons _ _), all]
      rfl
  have some_digit : (whole.isEmpty && (fraction.getD []).isEmpty) = false := by
    rcases filled with left | right
    · simp [left]
    · simp [right]
  have scanned : Decimal.scan isDigit (whole ++ fraction.elim [] (.char '.' :: ·)) =
      some ({ digits := digitsValue (whole ++ fraction.getD []), exponent := 0 - (fraction.getD []).length }, []) := by
    rw [Decimal.scan, bind_of_some first, bind_of_some second, some_digit]
    rfl
  rw [Decimal.ofText?, scanned, Int.zero_sub]

theorem Scanner.discard_eq_bind {β : Type} (p : Scanner β) : (discard p : Scanner Unit) = p >>= fun _ => pure () := by
  funext t
  rw [discard_eq]
  cases read : p t <;> simp [bind, StateT.bind, read, pure, StateT.pure]

/-! ### Calls -/

namespace Call

open Token

def argumentTokens (numbers : List Token) : List Token := numbers.flatMap (fun p => [.mark ',', p]) ++ [.mark ')']

/-- A number in a call ends before a comma and before a bracket. -/
def EndsInCall (p : Token) : Prop := ∀ v, p.form v → p.goesOn v ',' = false ∧ p.goesOn v ')' = false

theorem apart_argumentTokens {first : Token} {numbers : List Token} (ends : EndsInCall first)
    (all : ∀ p ∈ numbers, EndsInCall p) : Apart 0 (first :: argumentTokens numbers) := by
  induction numbers generalizing first with
  | nil =>
    refine ⟨?_, trivial⟩
    rintro - v _ c form rfl same
    obtain rfl : CodePoint.char ')' = c := by simpa using same
    exact (ends v form).2
  | cons p numbers ih =>
    have ⟨next, later⟩ := List.forall_mem_cons.mp all
    refine ⟨?_, fun _ _ _ _ _ _ _ => rfl, ih next later⟩
    rintro - v _ c form rfl same
    obtain rfl : CodePoint.char ',' = c := by simpa using same
    exact (ends v form).1

theorem forall₂_argumentTokens {numbers : List Token} {vs : List Text} :
    List.Forall₂ (fun p v => p.form v) (argumentTokens numbers) vs ↔
      ∃ values, List.Forall₂ (fun p v => p.form v) numbers values ∧ vs = argumentParts values := by
  induction numbers generalizing vs with
  | nil =>
    constructor
    · rintro (_ | ⟨rfl, _ | _⟩)
      exact ⟨[], .nil, rfl⟩
    · rintro ⟨_, _ | _, rfl⟩
      exact .cons rfl .nil
  | cons p numbers ih =>
    constructor
    · rintro (_ | ⟨rfl, _ | ⟨form, others⟩⟩)
      obtain ⟨values, forms, rfl⟩ := ih.mp others
      exact ⟨_ :: values, .cons form forms, rfl⟩
    · rintro ⟨_, _ | ⟨form, forms⟩, rfl⟩
      exact .cons rfl (.cons form (ih.mpr ⟨_, forms, rfl⟩))

/-- A name that begins with a letter. -/
abbrev Begins (letters : String) : Prop := ∃ c ∈ letters.toList.head?, isBlank c = false

def tokens (name : String) (begins : Begins name) (numbers : List Token) : List Token :=
  .word name begins :: .mark '(' :: .word "close" ⟨'c', rfl, by decide⟩ :: argumentTokens numbers

theorem closed_argumentTokens {numbers : List Token} {values : List Text} {rest : Text}
    (forms : List.Forall₂ (fun p v => p.form v) numbers values) (before : List Token) (parts : List Text)
    (same : before.length = parts.length) :
    Closed (before ++ argumentTokens numbers) (parts ++ argumentParts values) rest := by
  have counts : (before ++ numbers.flatMap fun p => [Token.mark ',', p]).length =
      (parts ++ values.flatMap fun n => ([",", n] : List Text)).length := by
    simp [same, forms.length_eq]
  intro last member
  rw [argumentTokens, argumentParts, ← List.append_assoc, ← List.append_assoc, List.zip_append counts,
    List.zip_cons_cons, List.zip_nil_left, List.getLast?_concat] at member
  obtain rfl := Option.some.inj member
  exact fun _ _ => rfl

theorem row_tokens_iff {name : String} {begins : Begins name} {numbers : List Token}
    (ends : ∀ p ∈ numbers, EndsInCall p) {vs : List Text} {t rest : Text} :
    row blanks (tokens name begins numbers) t = some (vs, rest) ↔
      ∃ word close values, Spells name word ∧ Spells "close" close ∧
        List.Forall₂ (fun p v => p.form v) numbers values ∧ vs = callParts word close values ∧ Spaced 0 vs t rest := by
  have apart : Apart 0 (tokens name begins numbers) :=
    ⟨fun _ _ _ _ _ _ _ => rfl, fun _ _ _ _ _ _ _ => rfl, apart_argumentTokens (fun _ _ => ⟨rfl, rfl⟩) ends⟩
  rw [row_iff blanks_isGap apart]
  constructor
  · rintro ⟨_ | ⟨named, _ | ⟨rfl, _ | ⟨closes, arguments⟩⟩⟩, spaced, -⟩
    obtain ⟨values, forms, rfl⟩ := forall₂_argumentTokens.mp arguments
    exact ⟨_, _, values, named, closes, forms, rfl, spaced⟩
  · rintro ⟨word, close, values, named, closes, forms, rfl, spaced⟩
    exact ⟨.cons named (.cons rfl (.cons closes (forall₂_argumentTokens.mpr ⟨values, forms, rfl⟩))), spaced,
      closed_argumentTokens forms [_, _, _] [word, "(", close] rfl⟩

theorem endsInCall_digits : EndsInCall .digits := by
  have comma : isDigit ',' = false := by decide
  have bracket : isDigit ')' = false := by decide
  exact fun _ _ => ⟨comma, bracket⟩

theorem endsInCall_decimal : EndsInCall .decimal := by
  intro v _
  have comma : isDigit ',' = false := by decide
  have bracket : isDigit ')' = false := by decide
  simp [Token.decimal, comma, bracket]

theorem one_eq (name : String) (begins : Begins name) :
    one name = (fun ts => ts.getD 4 []) <$> row blanks (tokens name begins [.digits]) := by
  simp only [one, closeArgument, argument, mark, closing, tokens, argumentTokens, List.flatMap_cons, List.flatMap_nil,
    List.cons_append, List.nil_append, row, discard_eq_bind, Token.word, Token.mark, Token.digits, map_eq_pure_bind,
    bind_assoc, pure_bind]
  rfl

theorem macd_eq : macd = (fun ts => (ts.getD 4 [], ts.getD 6 [], ts.getD 8 [])) <$>
    row blanks (tokens "macd" ⟨'m', rfl, by decide⟩ [.digits, .digits, .digits]) := by
  simp only [macd, closeArgument, argument, mark, closing, tokens, argumentTokens, List.flatMap_cons, List.flatMap_nil,
    List.cons_append, List.nil_append, row, discard_eq_bind, Token.word, Token.mark, Token.digits, map_eq_pure_bind,
    bind_assoc, pure_bind]
  rfl

theorem bands_eq : bands = (fun ts => (ts.getD 4 [], ts.getD 6 [])) <$>
    row blanks (tokens "bb" ⟨'b', rfl, by decide⟩ [.digits, .decimal]) := by
  simp only [bands, closeArgument, argument, mark, closing, tokens, argumentTokens, List.flatMap_cons, List.flatMap_nil,
    List.cons_append, List.nil_append, row, discard_eq_bind, Token.word, Token.mark, Token.digits, Token.decimal,
    map_eq_pure_bind, bind_assoc, pure_bind]
  rfl

theorem read?_one_iff {name : String} (begins : Begins name) {t n : Text} :
    (one name).read? t = some n ↔ IsCall Spells name [IsNumber] [n] t := by
  rw [one_eq name begins, read?_iff]
  simp only [map_iff, row_tokens_iff (List.forall_mem_singleton.mpr endsInCall_digits)]
  constructor
  · rintro ⟨rest, _, ⟨word, close, _, named, closes, _ | ⟨number, _ | _⟩, rfl, spaced⟩, rfl⟩
    exact ⟨.cons number .nil, word, close, rest, named, closes, spaced⟩
  · rintro ⟨_ | ⟨number, -⟩, word, close, rest, named, closes, spaced⟩
    exact ⟨rest, _, ⟨word, close, [n], named, closes, .cons number .nil, rfl, spaced⟩, rfl⟩

theorem read?_macd_iff {t fast slow signal : Text} : macd.read? t = some (fast, slow, signal) ↔
    IsCall Spells "macd" [IsNumber, IsNumber, IsNumber] [fast, slow, signal] t := by
  have ends : ∀ p ∈ [Token.digits, .digits, .digits], EndsInCall p := by
    simp [endsInCall_digits]
  rw [macd_eq, read?_iff]
  simp only [map_iff, row_tokens_iff ends]
  constructor
  · rintro ⟨rest, _, ⟨word, close, _, named, closes, _ | ⟨first, _ | ⟨second, _ | ⟨third, _ | _⟩⟩⟩, rfl, spaced⟩, same⟩
    cases same
    exact ⟨.cons first (.cons second (.cons third .nil)), word, close, rest, named, closes, spaced⟩
  · rintro ⟨_ | ⟨first, _ | ⟨second, _ | ⟨third, -⟩⟩⟩, word, close, rest, named, closes, spaced⟩
    exact ⟨rest, _, ⟨word, close, _, named, closes, .cons first (.cons second (.cons third .nil)), rfl, spaced⟩, rfl⟩

theorem read?_bands_iff {t bars width : Text} :
    bands.read? t = some (bars, width) ↔ IsCall Spells "bb" [IsNumber, IsDecimal] [bars, width] t := by
  have ends : ∀ p ∈ [Token.digits, .decimal], EndsInCall p := by
    simp [endsInCall_digits, endsInCall_decimal]
  rw [bands_eq, read?_iff]
  simp only [map_iff, row_tokens_iff ends]
  constructor
  · rintro ⟨rest, _, ⟨word, close, _, named, closes, _ | ⟨number, _ | ⟨decimal, _ | _⟩⟩, rfl, spaced⟩, same⟩
    cases same
    exact ⟨.cons number (.cons decimal .nil), word, close, rest, named, closes, spaced⟩
  · rintro ⟨_ | ⟨number, _ | ⟨decimal, -⟩⟩, word, close, rest, named, closes, spaced⟩
    exact ⟨rest, _, ⟨word, close, _, named, closes, .cons number (.cons decimal .nil), rfl, spaced⟩, rfl⟩

end Call

/-! ### Short forms -/

namespace Short

open Token

def IsEnd (rest : Text) : Prop := rest = [] ∨ rest = ['\n']

theorem apart_one : ∀ tokens : List Token, Apart 1 tokens
  | [] => trivial
  | [_] => trivial
  | _ :: q :: ps => ⟨fun none => absurd none Nat.one_ne_zero, apart_one (q :: ps)⟩

theorem closed_of_isEnd {tokens : List Token} {vs : List Text} {rest : Text} (ends : IsEnd rest) :
    Closed tokens vs rest := by
  intro last _ c first
  rcases ends with rfl | rfl
  · cases first
  · obtain rfl : CodePoint.char '\n' = c := by simpa using first
    exact last.1.ends (by decide)

/-- A row of tokens that is the whole text. -/
def whole {β : Type} (tokens : List Token) (f : List Text → β) : Scanner β := do
  let vs ← row blanks1 tokens
  finish
  return f vs

theorem read?_whole_iff {β : Type} {tokens : List Token} {f : List Text → β} {t : Text} {v : β} :
    (whole tokens f).read? t = some v ↔ ∃ vs rest, List.Forall₂ (fun p w => p.form w) tokens vs ∧
      Spaced 1 vs t rest ∧ IsEnd rest ∧ f vs = v := by
  rw [read?_iff]
  simp only [whole, bind_iff, pure_iff, row_iff blanks1_isGap (apart_one tokens), finish_iff]
  constructor
  · rintro ⟨_, vs, rest, ⟨forms, spaced, -⟩, _, _, ⟨rfl, ends⟩, same, rfl⟩
    exact ⟨vs, rest, forms, spaced, ends, same⟩
  · rintro ⟨vs, rest, forms, spaced, ends, same⟩
    exact ⟨rest, vs, rest, ⟨forms, spaced, closed_of_isEnd ends⟩, (), rest, ⟨rfl, ends⟩, same, rfl⟩

theorem length_of_spells {letters : String} {v : Text} (spells : Spells letters v) : v.length = letters.toList.length :=
  spells.length_eq.symm

/-- One word or another of the same length. -/
theorem word_or_iff {p : Scanner Text} {letters : String} {form : Text → Prop} {n : Nat}
    (count : letters.toList.length = n) (long : ∀ v, form v → v.length = n)
    (reads : ∀ t v rest, p t = some (v, rest) ↔ form v ∧ t = v ++ rest) {t v rest : Text} :
    (Scanner.word letters <|> p) t = some (v, rest) ↔ (Spells letters v ∨ form v) ∧ t = v ++ rest := by
  rw [orElse_iff, word_iff, reads]
  constructor
  · rintro (⟨spells, split⟩ | ⟨-, other, split⟩)
    · exact ⟨Or.inl spells, split⟩
    · exact ⟨Or.inr other, split⟩
  · rintro ⟨spells | other, split⟩
    · exact Or.inl ⟨spells, split⟩
    · cases first : Scanner.word letters t with
      | none => exact Or.inr ⟨rfl, other, split⟩
      | some found =>
        -- the word has the length of the other one, so it is the same row of letters
        obtain ⟨spells, split'⟩ := word_iff.mp first
        have same : found.1.length = v.length := (length_of_spells spells).trans (count.trans (long v other).symm)
        obtain ⟨rfl, -⟩ := List.append_inj (split'.symm.trans split) same
        exact Or.inl ⟨spells, split⟩

def keyword : Token where
  scan := Scanner.word "sma" <|> Scanner.word "ema" <|> Scanner.word "rsi"
  form v := Spells "sma" v ∨ Spells "ema" v ∨ Spells "rsi" v
  visible := by
    rintro v (spells | spells | spells)
    · exact visible_of_spells ⟨'s', rfl, by decide⟩ spells
    · exact visible_of_spells ⟨'e', rfl, by decide⟩ spells
    · exact visible_of_spells ⟨'r', rfl, by decide⟩ spells
  reads {t v rest} := by
    have ema : ∀ v, Spells "ema" v → v.length = 3 := fun _ => length_of_spells
    have rsi : ∀ v, Spells "rsi" v → v.length = 3 := fun _ => length_of_spells
    have later (t v rest : Text) : (Scanner.word "ema" <|> Scanner.word "rsi") t = some (v, rest) ↔
        (Spells "ema" v ∨ Spells "rsi" v) ∧ t = v ++ rest := word_or_iff (by decide) rsi fun _ _ _ => word_iff
    have others : ∀ v, Spells "ema" v ∨ Spells "rsi" v → v.length = 3 := by
      rintro v (spells | spells)
      · exact ema v spells
      · exact rsi v spells
    rw [word_or_iff (by decide) others later]
    simp

theorem one_eq : one = whole [keyword, .digits] fun ts => (ts.getD 0 [], ts.getD 1 []) := by
  simp only [one, whole, row, keyword, Token.digits, bind_assoc, pure_bind]
  rfl

theorem macd_eq : macd = whole [.word "macd" ⟨'m', rfl, by decide⟩, .digits, .digits, .digits]
    fun ts => (ts.getD 1 [], ts.getD 2 [], ts.getD 3 []) := by
  simp only [macd, whole, row, Token.word, Token.digits, discard_eq_bind, bind_assoc, pure_bind]
  rfl

theorem bands_eq : bands = whole [.word "bb" ⟨'b', rfl, by decide⟩, .digits, .decimal]
    fun ts => (ts.getD 1 [], ts.getD 2 []) := by
  simp only [bands, whole, row, Token.word, Token.digits, Token.decimal, discard_eq_bind, bind_assoc, pure_bind]
  rfl

theorem read?_one_iff {t word n : Text} : one.read? t = some (word, n) ↔
    IsNumber n ∧ (Spells "sma" word ∨ Spells "ema" word ∨ Spells "rsi" word) ∧
      ∃ rest, Spaced 1 [word, n] t rest ∧ IsEnd rest := by
  rw [one_eq, read?_whole_iff]
  constructor
  · rintro ⟨_, rest, _ | ⟨named, _ | ⟨number, _ | _⟩⟩, spaced, ends, same⟩
    cases same
    exact ⟨number, named, rest, spaced, ends⟩
  · rintro ⟨number, named, rest, spaced, ends⟩
    exact ⟨_, rest, .cons named (.cons number .nil), spaced, ends, rfl⟩

theorem read?_macd_iff {t fast slow signal : Text} : macd.read? t = some (fast, slow, signal) ↔
    IsShort Spells "macd" [IsNumber, IsNumber, IsNumber] [fast, slow, signal] t := by
  rw [macd_eq, read?_whole_iff]
  constructor
  · rintro ⟨_, rest, _ | ⟨named, _ | ⟨first, _ | ⟨second, _ | ⟨third, _ | _⟩⟩⟩⟩, spaced, ends, same⟩
    cases same
    exact ⟨.cons first (.cons second (.cons third .nil)), _, rest, named, spaced, ends⟩
  · rintro ⟨_ | ⟨first, _ | ⟨second, _ | ⟨third, -⟩⟩⟩, word, rest, named, spaced, ends⟩
    exact ⟨_, rest, .cons named (.cons first (.cons second (.cons third .nil))), spaced, ends, rfl⟩

theorem read?_bands_iff {t bars width : Text} :
    bands.read? t = some (bars, width) ↔ IsShort Spells "bb" [IsNumber, IsDecimal] [bars, width] t := by
  rw [bands_eq, read?_whole_iff]
  constructor
  · rintro ⟨_, rest, _ | ⟨named, _ | ⟨number, _ | ⟨decimal, _ | _⟩⟩⟩, spaced, ends, same⟩
    cases same
    exact ⟨.cons number (.cons decimal .nil), _, rest, named, spaced, ends⟩
  · rintro ⟨_ | ⟨number, _ | ⟨decimal, -⟩⟩, word, rest, named, spaced, ends⟩
    exact ⟨_, rest, .cons named (.cons number (.cons decimal .nil)), spaced, ends, rfl⟩

end Short

/-! ### Colors -/

theorem isWord_of_isBlank {c : CodePoint} (blank : isBlank c = true) : isWord c = false := by
  have apart : ∀ range ∈ (0x1c, 0x1f) :: spaceRanges, ∀ letters ∈ wordRanges,
      range.2 < letters.1 ∨ letters.2 < range.1 := by decide +kernel
  have within : CharRanges.has ((0x1c, 0x1f) :: spaceRanges) c = true := blank
  rw [← Bool.not_eq_true]
  intro letter
  obtain ⟨range, inside, bounds⟩ := List.any_eq_true.mp within
  obtain ⟨letters, inside', bounds'⟩ := List.any_eq_true.mp letter
  simp only [Bool.and_eq_true, decide_eq_true_eq] at bounds bounds'
  rcases apart range inside letters inside' with below | above <;> omega

namespace ColorToken

theorem forall₂_replicate_iff {accepts : CodePoint → Bool} {n : Nat} {w : Text} :
    List.Forall₂ (fun (x : CodePoint → Bool) c => x c = true) (List.replicate n accepts) w ↔
      w.length = n ∧ ∀ c ∈ w, accepts c = true := by
  induction n generalizing w with
  | zero =>
    rw [List.replicate_zero, List.forall₂_nil_left_iff]
    constructor
    · rintro rfl
      exact ⟨rfl, by simp⟩
    · rintro ⟨none, -⟩
      exact List.length_eq_zero_iff.mp none
  | succ n ih =>
    rw [List.replicate_succ, List.forall₂_cons_left_iff]
    constructor
    · rintro ⟨c, w, first, others, rfl⟩
      obtain ⟨rfl, all⟩ := ih.mp others
      exact ⟨rfl, List.forall_mem_cons.mpr ⟨first, all⟩⟩
    · rintro ⟨long, all⟩
      rcases w with _ | ⟨c, w⟩
      · cases long
      · obtain ⟨first, others⟩ := List.forall_mem_cons.mp all
        exact ⟨c, w, first, ih.mpr ⟨Nat.succ.inj long, others⟩, rfl⟩

theorem hexColor_iff {t v rest : Text} : hexColor t = some (v, rest) ↔ IsHexColor v ∧ t = v ++ rest := by
  have digits {t w rest : Text} : (List.replicate 6 isHexDigit).mapM Scanner.point t = some (w, rest) ↔
      (w.length = 6 ∧ ∀ c ∈ w, isHexDigit c = true) ∧ t = w ++ rest := by
    rw [← forall₂_replicate_iff]
    exact mapM_point_iff
  simp only [hexColor, bind_iff, pure_iff, point_iff, digits, decide_eq_true_eq]
  constructor
  · rintro ⟨_, _, ⟨rfl, rfl⟩, w, _, ⟨⟨long, all⟩, rfl⟩, rfl, rfl⟩
    exact ⟨⟨w, long, all, rfl⟩, rfl⟩
  · rintro ⟨⟨w, long, all, rfl⟩, rfl⟩
    exact ⟨_, _, ⟨rfl, rfl⟩, w, rest, ⟨⟨long, all⟩, rfl⟩, rfl, rfl⟩

theorem colorName_iff {t v rest : Text} : colorName t = some (v, rest) ↔
    IsColorName v ∧ t = v ++ rest ∧ ∀ c ∈ rest.head?, isWord c = false := by
  simp only [colorName, bind_iff, pure_iff, text_some_iff, some1_iff]
  constructor
  · rintro ⟨_, _, rfl, w, _, ⟨⟨filled, all⟩, rfl, stops⟩, rfl, rfl⟩
    exact ⟨⟨w, filled, all, rfl⟩, by simp, stops⟩
  · rintro ⟨⟨w, filled, all, rfl⟩, rfl, stops⟩
    exact ⟨(), w ++ rest, by simp, w, rest, ⟨⟨filled, all⟩, rfl, stops⟩, rfl, rfl⟩

/-- A name of a color goes on with letters, a hexadecimal color with nothing. -/
def value : Token where
  scan := hexColor <|> colorName
  form v := IsHexColor v ∨ IsColorName v
  goesOn v c := isWord c && v.head? = some (.char 'c')
  visible := by
    rintro v (⟨w, -, -, rfl⟩ | ⟨w, -, -, rfl⟩)
    · exact ⟨'#', w, rfl, by decide⟩
    · exact ⟨'c', "olor." ++ w, rfl, by decide⟩
  ends {v c} blank := by
    rw [isWord_of_isBlank blank]
    rfl
  reads {t v rest} := by
    rw [orElse_iff, hexColor_iff, colorName_iff]
    constructor
    · rintro (⟨hex, split⟩ | ⟨-, name, split, stops⟩)
      · obtain ⟨w, -, -, rfl⟩ := id hex
        exact ⟨Or.inl hex, split, fun c _ => by simp⟩
      · exact ⟨Or.inr name, split, fun c first => by simp [stops c first]⟩
    · rintro ⟨hex | name, split, stops⟩
      · exact Or.inl ⟨hex, split⟩
      · obtain ⟨w, -, -, rfl⟩ := id name
        refine Or.inr ⟨?_, name, split, fun c first => ?_⟩
        · cases read : hexColor t with
          | none => rfl
          | some found =>
            obtain ⟨⟨_, -, -, sign⟩, split'⟩ := hexColor_iff.mp read
            rw [split, sign] at split'
            cases split'
        · have initial : (("color." : Text) ++ w).head? = some (.char 'c') := rfl
          simpa [initial] using stops c first

def sign : Token where
  scan := (fun c => [c]) <$> point fun c => c = '=' || c = ':'
  form v := v = "=" ∨ v = ":"
  visible := by
    rintro v (rfl | rfl)
    · exact ⟨'=', [], rfl, by decide⟩
    · exact ⟨':', [], rfl, by decide⟩
  reads {t v rest} := by
    simp only [map_iff, point_iff, Bool.or_eq_true, decide_eq_true_eq]
    constructor
    · rintro ⟨_, ⟨rfl | rfl, rfl⟩, rfl⟩
      · exact ⟨Or.inl rfl, rfl, fun _ _ => trivial⟩
      · exact ⟨Or.inr rfl, rfl, fun _ _ => trivial⟩
    · rintro ⟨rfl | rfl, rfl, -⟩
      · exact ⟨_, ⟨Or.inl rfl, rfl⟩, rfl⟩
      · exact ⟨_, ⟨Or.inr rfl, rfl⟩, rfl⟩

def word : Token where
  scan := (fun _ => "color") <$> text "color"
  form v := v = "color"
  visible := by
    rintro v rfl
    exact ⟨'c', "olor", rfl, by decide⟩
  reads {t v rest} := by
    simp only [map_iff, text_some_iff]
    constructor
    · rintro ⟨_, rfl, rfl⟩
      exact ⟨rfl, rfl, fun _ _ => trivial⟩
    · rintro ⟨rfl, rfl, -⟩
      exact ⟨(), rfl, rfl⟩

theorem colorToken_eq : colorToken = (fun ts => ts.getD 2 []) <$> row blanks [word, sign, value] := by
  simp only [colorToken, row, word, sign, value, discard_eq_bind, map_eq_pure_bind, bind_assoc, pure_bind,
    List.getD_cons_succ, List.getD_cons_zero, bind_pure]

theorem read?_iff_isColor {t token : Text} : colorToken.read? t = some token ↔ IsColor token t := by
  have apart : Apart 0 [word, sign, value] := ⟨fun _ _ _ _ _ _ _ => rfl, fun _ _ _ _ _ _ _ => rfl, trivial⟩
  rw [colorToken_eq, read?_iff]
  simp only [map_iff, row_iff blanks_isGap apart]
  constructor
  · rintro ⟨rest, _, ⟨_ | ⟨rfl, _ | ⟨signed, _ | ⟨valued, _ | _⟩⟩⟩, spaced, closed⟩, rfl⟩
    refine ⟨_, rest, signed, spaced, ?_⟩
    rcases valued with hex | name
    · exact Or.inl hex
    · refine Or.inr ⟨name, fun c first => ?_⟩
      obtain ⟨w, -, -, rfl⟩ := name
      have stops := closed (value, "color." ++ w) rfl c first
      have initial : (("color." : Text) ++ w).head? = some (.char 'c') := rfl
      simpa [value, initial] using stops
  · rintro ⟨sign, rest, signed, spaced, valued⟩
    have form : value.form token := valued.imp_right And.left
    refine ⟨rest, _, ⟨.cons rfl (.cons signed (.cons form .nil)), spaced, ?_⟩, rfl⟩
    intro last member c first
    obtain rfl : (value, token) = last := by simpa using member
    rcases valued with ⟨w, -, -, rfl⟩ | ⟨-, stops⟩
    · simp [value]
    · simp [value, stops c first]

end ColorToken

end ChartOverlay
