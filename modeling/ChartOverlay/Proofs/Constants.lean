import ChartOverlay.Proofs.Phrases

/-!
# Constants of assignments

A script assigns flags and numbers. A number may have a sign, a point and a power of ten, but the scanners of
parameters read less than that: digits up to the point or the power (`Kind.whole`), digits and points up to the power
(`Kind.decimal`), and nothing of a number with a sign.
-/

namespace ChartOverlay.Input

open Scanner

/-! ### Numbers -/

abbrev Digits := { t : Text // ∀ c ∈ t, isDigit c = true }

inductive Sign
  | none
  | plus
  | minus

def Sign.text : Sign → Text
  | none => []
  | plus => "+"
  | minus => "-"

structure Power where
  capital : Bool := false
  sign : Sign := .none
  digits : Digits
  filled : digits.1 ≠ []

def Power.text (p : Power) : Text := .char (if p.capital then 'E' else 'e') :: (p.sign.text ++ p.digits.1)

/-- A number with at least one digit before or after its point. -/
structure NumberText where
  sign : Sign := .none
  whole : Digits
  fraction : Option Digits := none
  power : Option Power := none
  filled : whole.1 ≠ [] ∨ fraction.elim [] Subtype.val ≠ []

namespace NumberText

def fractionText (n : NumberText) : Text := n.fraction.elim [] fun f => .char '.' :: f.1

def powerText (n : NumberText) : Text := n.power.elim [] Power.text

/-- What stands before the power. -/
def mantissa (n : NumberText) : Text := n.whole.1 ++ n.fractionText

def text (n : NumberText) : Text := n.sign.text ++ (n.mantissa ++ n.powerText)

/-- The value of what stands before the power. -/
def decimal (n : NumberText) : Decimal where
  digits := digitsValue (n.whole.1 ++ n.fraction.elim [] Subtype.val)
  exponent := -(n.fraction.elim [] Subtype.val).length

theorem ofText?_mantissa (n : NumberText) : Decimal.ofText? isDigit n.mantissa = some n.decimal := by
  obtain ⟨sign, whole, fraction, power, filled⟩ := n
  cases fraction with
  | none => exact @ofText?_digits whole.1 none whole.2 nofun filled
  | some f => exact @ofText?_digits whole.1 (some f.1) whole.2 f.2 filled

theorem mem_mantissa {n : NumberText} {c : CodePoint} (member : c ∈ n.mantissa) : isDigit c = true ∨ c = '.' := by
  obtain ⟨sign, whole, _ | fraction, power, filled⟩ := n
  · exact Or.inl (whole.2 c (by simpa [mantissa, fractionText] using member))
  · rcases List.mem_append.mp member with inside | later
    · exact Or.inl (whole.2 c inside)
    · exact (List.mem_cons.mp later).symm.imp_left (fraction.2 c)

theorem mantissa_ne_nil (n : NumberText) : n.mantissa ≠ [] := by
  obtain ⟨sign, whole, _ | fraction, power, filled⟩ := n
  · simpa [mantissa, fractionText] using filled
  · simp [mantissa, fractionText]

end NumberText

/-! ### Constants -/

inductive Constant
  | flag (b : Bool)
  | number (n : NumberText)

namespace Constant

def text : Constant → Text
  | flag true => "true"
  | flag false => "false"
  | number n => n.text

def unsigned? : Constant → Option NumberText
  | number n => match n.sign with
    | .none => some n
    | _ => none
  | flag _ => none

/-- The digits that a number without a sign begins with. -/
def digits? (x : Constant) : Option Text :=
  x.unsigned?.bind fun n => if n.whole.1 = [] then none else some n.whole.1

def flag? : Constant → Option Bool
  | flag b => some b
  | number _ => none

end Constant

/-- A scanner, with what it reads of a constant. -/
structure Kind (β : Type) where
  scanner : Scanner β
  begins : Constant → Option β
  reads : ∀ (x : Constant) (c : CodePoint) (rest : Text), Ends c → scanner.read? (x.text ++ c :: rest) = begins x

section Heads
variable (n : NumberText) {c : CodePoint} (ends : Ends c) (rest : Text)
include ends

theorem head_powerText : ∀ d ∈ (n.powerText ++ c :: rest).head?, isDigit d = false ∧ d ≠ '.' := by
  have letter : ∀ b : Bool, isDigit (if b then 'E' else 'e' : Char) = false ∧
      CodePoint.char (if b then 'E' else 'e') ≠ '.' := by
    decide
  intro d first
  rcases power : n.power with _ | p
  · obtain rfl : c = d := by simpa [NumberText.powerText, power] using first
    exact ⟨isDigit_of_ends ends, ne_point_of_ends ends⟩
  · obtain rfl : CodePoint.char (if p.capital then 'E' else 'e') = d := by
      simpa [NumberText.powerText, power, Power.text] using first
    exact letter p.capital

theorem head_fractionText : ∀ d ∈ (n.fractionText ++ (n.powerText ++ c :: rest)).head?, isDigit d = false := by
  intro d first
  rcases fraction : n.fraction with _ | f
  · rw [NumberText.fractionText, fraction] at first
    exact (head_powerText n ends rest d first).1
  · obtain rfl : CodePoint.char '.' = d := by simpa [NumberText.fractionText, fraction] using first
    decide

end Heads

theorem read?_some1_none {accepts : CodePoint → Bool} {t : Text} (foreign : ∀ c ∈ t.head?, accepts c = false) :
    (some1 accepts).read? t = none := by
  rw [Option.eq_none_iff_forall_ne_some]
  intro w read
  obtain ⟨rest, scanned⟩ := read?_iff.mp read
  obtain ⟨⟨filled, all⟩, rfl, -⟩ := some1_iff.mp scanned
  obtain ⟨c, w, rfl⟩ := List.exists_cons_of_ne_nil filled
  have other := foreign c rfl
  rw [all c List.mem_cons_self] at other
  cases other

/-- A row of digits is read only from the front of a number without a sign. -/
theorem read?_some1_text {accepts : CodePoint → Bool} (foreign : ∀ c ∈ ("+-tf" : Text), accepts c = false)
    (x : Constant) (t : Text) : (some1 accepts).read? (x.text ++ t) =
      x.unsigned?.bind fun n => (some1 accepts).read? (n.mantissa ++ (n.powerText ++ t)) := by
  have silent (c : Char) (t : Text) (member : .char c ∈ ("+-tf" : Text)) :
      (some1 accepts).read? (.char c :: t) = none := by
    apply read?_some1_none
    intro d first
    obtain rfl : CodePoint.char c = d := by simpa using first
    exact foreign _ member
  rcases x with (_ | _) | n
  · exact silent 'f' _ (by decide)
  · exact silent 't' _ (by decide)
  · rcases sign : n.sign
    · simp [Constant.text, Constant.unsigned?, NumberText.text, sign, Sign.text]
    · simp only [Constant.text, Constant.unsigned?, NumberText.text, sign]
      exact silent '+' _ (by decide)
    · simp only [Constant.text, Constant.unsigned?, NumberText.text, sign]
      exact silent '-' _ (by decide)

def Kind.whole : Kind Text where
  scanner := Scanner.digits
  begins := Constant.digits?
  reads x c rest ends := by
    unfold Scanner.digits
    rw [read?_some1_text (by decide), Constant.digits?]
    congr 1
    funext n
    have stops := head_fractionText n ends rest
    rw [NumberText.mantissa, List.append_assoc]
    by_cases empty : n.whole.1 = []
    · rw [if_pos empty, empty]
      exact read?_some1_none stops
    · rw [if_neg empty]
      exact read?_iff.mpr ⟨_, some1_iff.mpr ⟨⟨empty, n.whole.2⟩, rfl, stops⟩⟩

def Kind.decimal : Kind Text where
  scanner := points
  begins x := x.unsigned?.map NumberText.mantissa
  reads x c rest ends := by
    unfold points
    rw [read?_some1_text (by decide), Option.map_eq_bind]
    congr 1
    funext n
    refine read?_iff.mpr ⟨_, some1_iff.mpr ⟨⟨n.mantissa_ne_nil, ?_⟩, rfl, ?_⟩⟩
    · intro d member
      simpa using NumberText.mem_mantissa member
    · intro d first
      simpa using head_powerText n ends rest d first

theorem NumberText.mem_text {n : NumberText} {c : CodePoint} (member : c ∈ n.text) :
    isDigit c = true ∨ c ∈ (".+-eE" : Text) := by
  have signed (sign : Sign) : ∀ d ∈ sign.text, d ∈ (".+-eE" : Text) := by
    cases sign <;> decide
  rcases List.mem_append.mp member with sign | later
  · exact Or.inr (signed n.sign c sign)
  rcases List.mem_append.mp later with inside | later
  · refine (mem_mantissa inside).imp_right ?_
    rintro rfl
    decide
  · have letter : ∀ b : Bool, CodePoint.char (if b then 'E' else 'e') ∈ (".+-eE" : Text) := by decide
    rcases power : n.power with _ | p
    · simp [powerText, power] at later
    rw [powerText, power] at later
    rcases List.mem_cons.mp later with rfl | later
    · exact Or.inr (letter p.capital)
    rcases List.mem_append.mp later with sign | digit
    · exact Or.inr (signed p.sign c sign)
    · exact Or.inl (p.digits.2 c digit)

theorem flag_read?_none {c : CodePoint} (t : Text) (noT : c ≠ 't') (noF : c ≠ 'f') : flag.read? (c :: t) = none := by
  have yes : Scanner.text "true" (c :: t) = none := by
    have word : ("true" : Text) = .char 't' :: ("rue" : Text) := by decide
    simp [Scanner.text, word, List.isPrefixOf?, Ne.symm noT]
  have no : Scanner.text "false" (c :: t) = none := by
    have word : ("false" : Text) = .char 'f' :: ("alse" : Text) := by decide
    simp [Scanner.text, word, List.isPrefixOf?, Ne.symm noF]
  rw [Option.eq_none_iff_forall_ne_some]
  intro b read
  obtain ⟨rest, scanned⟩ := read?_iff.mp read
  simp [flag, orElse_iff, map_iff, yes, no] at scanned

def Kind.flag : Kind Bool where
  scanner := Input.flag
  begins := Constant.flag?
  reads x c rest ends := by
    rcases x with (_ | _) | n
    · rfl
    · rfl
    have letters : ∀ d ∈ n.text, d ≠ 't' ∧ d ≠ 'f' := by
      intro d member
      constructor
      · rintro rfl
        exact absurd (NumberText.mem_text member) (by decide)
      · rintro rfl
        exact absurd (NumberText.mem_text member) (by decide)
    have filled : n.text ≠ [] := by simp [NumberText.text, n.mantissa_ne_nil]
    obtain ⟨d, t, split⟩ := List.exists_cons_of_ne_nil filled
    have first := letters d (by simp [split])
    rw [Constant.text, split]
    exact flag_read?_none _ first.1 first.2

namespace Constant

theorem mem_text {x : Constant} {c : CodePoint} (member : c ∈ x.text) :
    isDigit c = true ∨ c ∈ (".+-eEtrufals" : Text) := by
  rcases x with (_ | _) | n
  · exact Or.inr ((by decide : ∀ d ∈ ("false" : Text), d ∈ (".+-eEtrufals" : Text)) c member)
  · exact Or.inr ((by decide : ∀ d ∈ ("true" : Text), d ∈ (".+-eEtrufals" : Text)) c member)
  · refine (NumberText.mem_text member).imp_right ?_
    exact (by decide : ∀ d ∈ (".+-eE" : Text), d ∈ (".+-eEtrufals" : Text)) c

theorem notMem (x : Constant) {c : CodePoint} (other : ¬(isDigit c = true ∨ c ∈ (".+-eEtrufals" : Text))) :
    c ∉ x.text :=
  fun member => other (mem_text member)

theorem visible (x : Constant) (rest : Text) : ∃ c t, x.text ++ rest = c :: t ∧ isBlank c = false := by
  have filled : x.text ≠ [] := by
    rcases x with (_ | _) | n
    · exact List.cons_ne_nil _ _
    · exact List.cons_ne_nil _ _
    · simp [text, NumberText.text, n.mantissa_ne_nil]
  obtain ⟨c, t, split⟩ := List.exists_cons_of_ne_nil filled
  refine ⟨c, t ++ rest, by rw [split, List.cons_append], ?_⟩
  rcases mem_text (x := x) (c := c) (by simp [split]) with digit | letter
  · exact isBlank_of_isDigit digit
  · exact (by decide : ∀ d ∈ (".+-eEtrufals" : Text), isBlank d = false) c letter

end Constant

end ChartOverlay.Input
