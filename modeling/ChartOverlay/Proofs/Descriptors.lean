import ChartOverlay.Proofs.Partial
import ChartOverlay.Script.Classification

/-!
# Descriptors of script lines

What a script line asks for can be calculated: `ofLine?_isSound` says that its numbers are finite, that a band
has a width, and that its color is not blank.
-/

namespace ChartOverlay

/-! ### Scanners -/

namespace Scanner
variable {β γ : Type}

theorem bind_some {p : Scanner β} {f : β → Scanner γ} {t rest : Text} {c : γ}
    (h : (p >>= f) t = some (c, rest)) : ∃ b middle, p t = some (b, middle) ∧ f b middle = some (c, rest) := by
  obtain ⟨⟨b, middle⟩, first, h⟩ := Option.bind_eq_some_iff.mp h
  exact ⟨b, middle, first, h⟩

theorem pure_some {b c : β} {t rest : Text} (h : (pure b : Scanner β) t = some (c, rest)) : b = c := by
  cases h
  rfl

theorem orElse_some {p q : Scanner β} {t rest : Text} {b : β} (h : (p <|> q) t = some (b, rest)) :
    p t = some (b, rest) ∨ q t = some (b, rest) := by
  cases first : p t with
  | none =>
    refine Or.inr ?_
    simpa [HOrElse.hOrElse, OrElse.orElse, Alternative.orElse, StateT.orElse, first] using h
  | some found =>
    refine Or.inl ?_
    simpa [HOrElse.hOrElse, OrElse.orElse, Alternative.orElse, StateT.orElse, first] using h

theorem mapM_some {δ : Type} {p : δ → Scanner β} {xs : List δ} {t rest : Text} {ys : List β}
    (h : xs.mapM p t = some (ys, rest)) : List.Forall₂ (fun x y => ∃ t rest, p x t = some (y, rest)) xs ys := by
  induction xs generalizing t ys rest with
  | nil =>
    obtain rfl := pure_some h
    exact .nil
  | cons x xs ih =>
    rw [List.mapM_cons] at h
    obtain ⟨y, middle, first, h⟩ := bind_some h
    obtain ⟨ys', middle', tail, h⟩ := bind_some h
    obtain rfl := pure_some h
    exact .cons ⟨_, _, first⟩ (ih tail)

theorem point_some {accepts : CodePoint → Bool} {t rest : Text} {c : CodePoint}
    (h : point accepts t = some (c, rest)) : accepts c = true := by
  cases t with
  | nil => cases h
  | cons d t =>
    rw [point] at h
    split at h
    · rename_i accepted
      cases h
      exact accepted
    · cases h

/-- A text that stands for a word when case does not count. -/
def Spells (letters : String) (w : Text) : Prop :=
  List.Forall₂ (fun letter c => standsFor letter c = true) letters.toList w

theorem word_some {letters : String} {t rest w : Text} (h : word letters t = some (w, rest)) :
    Spells letters w := by
  refine (mapM_some h).imp ?_
  rintro letter c ⟨_, _, read⟩
  exact point_some read

end Scanner

def shortNames : List String := ["sma", "ema", "rsi"]

theorem spells_of_short {line word digits : Text} (h : Short.one.read? line = some (word, digits)) :
    ∃ letters ∈ shortNames, Scanner.Spells letters word := by
  obtain ⟨⟨found, rest⟩, h, same⟩ := Option.map_eq_some_iff.mp h
  obtain ⟨name, middle, named, h⟩ := Scanner.bind_some h
  obtain ⟨_, _, _, h⟩ := Scanner.bind_some h
  obtain ⟨_, _, _, h⟩ := Scanner.bind_some h
  obtain ⟨_, _, _, h⟩ := Scanner.bind_some h
  obtain rfl := Scanner.pure_some h
  cases same
  rcases Scanner.orElse_some named with sma | later
  · exact ⟨"sma", by decide, Scanner.word_some sma⟩
  rcases Scanner.orElse_some later with ema | rsi
  · exact ⟨"ema", by decide, Scanner.word_some ema⟩
  · exact ⟨"rsi", by decide, Scanner.word_some rsi⟩

/-- The keyword of a short form with one number has three letters. -/
theorem length_of_short {line word digits : Text} (h : Short.one.read? line = some (word, digits)) :
    word.length = 3 := by
  obtain ⟨letters, member, spells⟩ := spells_of_short h
  have sizes : ∀ letters ∈ shortNames, letters.toList.length = 3 := by decide
  exact spells.length_eq.symm.trans (sizes letters member)

theorem length_le_lowered (word : Text) : word.length ≤ (Descriptor.lowered word).length := by
  induction word with
  | nil => exact Nat.zero_le _
  | cons c rest ih =>
    have first : 1 ≤ (if c = 'İ' then ['i', '\u0307'] else [c.map Char.toLower] : Text).length := by
      split <;> simp
    rw [Descriptor.lowered, List.flatMap_cons, List.length_append, List.length_cons, Nat.add_comm]
    exact Nat.add_le_add first ih

theorem resolveColor_ne_blank (token : Text) : resolveColor token ≠ some [] := by
  unfold resolveColor
  split
  · exact nofun
  · intro h
    have named : ∀ entry ∈ namedColors, entry.2 ≠ ("" : Text) := by decide
    obtain ⟨before, after, split, -⟩ := List.lookup_eq_some_iff.mp h
    exact named _ (split ▸ List.mem_append_right before List.mem_cons_self) rfl

theorem lineColor?_ne_blank (line : Text) : lineColor? line ≠ some [] := by
  intro h
  obtain ⟨token, -, h⟩ := Option.bind_eq_some_iff.mp h
  exact resolveColor_ne_blank token h

/-! ### Lines -/

namespace Descriptor
variable {α : Type} [Arith α]

/-- The parameters of a kind that count bars. -/
def periodNames : IndicatorKind → List String
  | .macd => ["fast", "slow", "signal"]
  | .sma | .ema | .rsi | .bb => ["period"]

/-- A descriptor that can be calculated: its periods are finite, a band has a width, and its color is not
blank. -/
structure IsSound (d : Descriptor α) : Prop where
  finite : ∀ name ∈ periodNames d.kind, ∀ x, List.lookup (name : Text) d.params = some x → Arith.isFinite x
  width : d.kind = .bb → ∃ x, List.lookup ("stddev" : Text) d.params = some x
  color : d.color ≠ some []

theorem params?_ok {given : List (Text × Nat)} {ps : List (Text × α)} (h : params? given = .ok ps) :
    ps = given.map (fun p => (p.1, Arith.ofInt p.2)) ∧
      ∀ name x, List.lookup name ps = some x → Arith.isFinite x := by
  unfold params? at h
  dsimp only at h
  split at h
  · rename_i sound
    obtain rfl := Except.ok.inj h
    refine ⟨rfl, fun name x found => ?_⟩
    obtain ⟨before, after, split, -⟩ := List.lookup_eq_some_iff.mp found
    obtain ⟨entry, member, same⟩ := List.mem_map.mp (split ▸ List.mem_append_right before List.mem_cons_self)
    have finite := List.filterMap_eq_nil_iff.mp (List.isEmpty_iff.mp sound) entry member
    cases same
    by_contra infinite
    simp [infinite] at finite
  · cases h

theorem ofPeriod?_isSound {kind : IndicatorKind} {digits : Text} {color : Option Text} {d : Descriptor α}
    (simple : kind ≠ .bb) (colored : color ≠ some []) (h : ofPeriod? kind digits color = .ok d) :
    d.IsSound := by
  obtain ⟨period, -, h⟩ := bind_ok h
  obtain ⟨ps, read, h⟩ := bind_ok h
  obtain rfl := pure_ok h
  exact ⟨fun name _ => (params?_ok read).2 name, fun band => absurd band simple, colored⟩

theorem ofMacd?_isSound {fast slow signal : Text} {color : Option Text} {d : Descriptor α}
    (colored : color ≠ some []) (h : ofMacd? fast slow signal color = .ok d) : d.IsSound := by
  obtain ⟨_, -, h⟩ := bind_ok h
  obtain ⟨_, -, h⟩ := bind_ok h
  obtain ⟨_, -, h⟩ := bind_ok h
  obtain ⟨ps, read, h⟩ := bind_ok h
  obtain rfl := pure_ok h
  exact ⟨fun name _ => (params?_ok read).2 name, nofun, colored⟩

theorem ofBands?_isSound {period width : Text} {color : Option Text} {d : Descriptor α}
    (colored : color ≠ some []) (h : ofBands? period width color = .ok d) : d.IsSound := by
  obtain ⟨bars, -, h⟩ := bind_ok h
  obtain ⟨ps, read, h⟩ := bind_ok h
  obtain rfl := pure_ok h
  obtain ⟨rfl, finite⟩ := params?_ok read
  refine ⟨?_, fun _ => ⟨_, rfl⟩, colored⟩
  intro name member x found
  obtain rfl := List.mem_singleton.mp member
  exact finite "period" x found

theorem ofShort?_isSound {word digits : Text} {d : Descriptor α} (letters : word.length = 3)
    (h : ofShort? word digits = .ok d) : d.IsSound := by
  obtain ⟨period, -, h⟩ := bind_ok h
  split at h
  · rename_i kind named
    obtain ⟨ps, read, h⟩ := bind_ok h
    obtain rfl := pure_ok h
    refine ⟨fun name _ => (params?_ok read).2 name, ?_, nofun⟩
    -- the keyword of a band is shorter than what is read here
    rintro rfl
    have same : Text.ofString IndicatorKind.bb.name = lowered word := by
      simpa using List.find?_some named
    have long := length_le_lowered word
    rw [← same, letters] at long
    exact absurd long (by decide)
  · cases h

omit [Arith α] in
theorem ok_of_some {x : Except ScriptError (Descriptor α)} {d : Descriptor α} (h : some <$> x = .ok (some d)) :
    x = .ok d := by
  obtain ⟨_, read, same⟩ := map_ok h
  cases same
  exact read

/-- What a line asks for can be calculated. -/
theorem ofLine?_isSound {line : Text} {d : Descriptor α} (h : ofLine? line = .ok (some d)) : d.IsSound := by
  have colored := lineColor?_ne_blank line
  unfold ofLine? at h
  -- a line is tried as each of the five calls and then as each of the three short forms
  split at h
  · exact ofPeriod?_isSound (by decide) colored (ok_of_some h)
  split at h
  · exact ofPeriod?_isSound (by decide) colored (ok_of_some h)
  split at h
  · exact ofPeriod?_isSound (by decide) (by decide) (ok_of_some h)
  split at h
  · exact ofMacd?_isSound (by decide) (ok_of_some h)
  split at h
  · exact ofBands?_isSound (by decide) (ok_of_some h)
  split at h
  · rename_i found
    exact ofShort?_isSound (length_of_short found) (ok_of_some h)
  split at h
  · exact ofMacd?_isSound (by decide) (ok_of_some h)
  split at h
  · exact ofBands?_isSound (by decide) (ok_of_some h)
  · cases h

end Descriptor

theorem Script.indicators?_isSound {α : Type} [Arith α] {script : Text} {ds : List (Descriptor α)}
    (h : Script.indicators? script = .ok ds) : ∀ d ∈ ds, d.IsSound := by
  obtain ⟨found, read, h⟩ := bind_ok h
  obtain rfl := pure_ok h
  intro d member
  obtain ⟨_, asked, rfl⟩ := List.mem_filterMap.mp member
  obtain ⟨line, -, read⟩ := mem_of_mapM read asked
  exact Descriptor.ofLine?_isSound read

end ChartOverlay
