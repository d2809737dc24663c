import ChartOverlay.Proofs.Accounting
import ChartOverlay.Proofs.Placement
import ChartOverlay.Service

/-!
# What can be sent

An answer is sent if its whole numbers fit into words and its texts are rows of characters. Of a script only digits
and the letters of a color come back in a bundle, so that `Service.fits_bundle` needs nothing of the scripts but that
the color counter stays in a word.
-/

namespace ChartOverlay

/-! ### Rows of characters -/

/-- A row of characters, without a half that stands alone. -/
def Text.Unbroken (t : Text) : Prop := ∀ c ∈ t, c.isHalf = false

namespace Text
variable {s t : Text}

theorem hasHalf_eq_false : t.hasHalf = false ↔ t.Unbroken := by
  simp [hasHalf, Unbroken]

theorem unbroken_append : (s ++ t).Unbroken ↔ s.Unbroken ∧ t.Unbroken := List.forall_mem_append

theorem unbroken_ofString (s : String) : (ofString s).Unbroken := hasHalf_eq_false.mp (hasHalf_ofString s)

end Text

namespace Scanner

/-- The row of code points that a scanner gives is of a class. -/
theorem some1_some {accepts : CodePoint → Bool} {t rest w : Text} (h : some1 accepts t = some (w, rest)) :
    ∀ c ∈ w, accepts c = true := by
  obtain ⟨c, middle, first, h⟩ := bind_some h
  obtain ⟨more, _, many, h⟩ := bind_some h
  obtain rfl := pure_some h
  obtain ⟨rfl, rfl⟩ := Prod.mk.inj (Option.some.inj many)
  rw [List.forall_mem_cons]
  exact ⟨point_some first, fun d member => List.mem_takeWhile_imp member⟩

theorem search_some {β : Type} {p : Scanner β} {t : Text} {x : β} (h : search p t = some x) :
    ∃ t rest, p t = some (x, rest) := by
  induction t with
  | nil =>
    obtain ⟨⟨_, rest⟩, read, rfl⟩ := Option.map_eq_some_iff.mp h
    exact ⟨_, rest, read⟩
  | cons c t ih =>
    rw [search] at h
    cases here : p.read? (c :: t) with
    | none =>
      rw [here] at h
      exact ih h
    | some y =>
      rw [here] at h
      cases h
      obtain ⟨⟨_, rest⟩, read, rfl⟩ := Option.map_eq_some_iff.mp here
      exact ⟨_, rest, read⟩

end Scanner

theorem isHalf_of_isDigit {c : CodePoint} (digit : isDigit c = true) : c.isHalf = false := by
  cases c with
  | char c => rfl
  | half offset =>
    have apart : ∀ first ∈ zeroDigits, first + 9 < 0xd800 ∨ 0xe000 ≤ first := by decide
    obtain ⟨n, found⟩ := Option.isSome_iff_exists.mp digit
    obtain ⟨first, found, -⟩ := Option.map_eq_some_iff.mp found
    have within : first ≤ (CodePoint.half offset).code ∧ (CodePoint.half offset).code ≤ first + 9 := by
      simpa only [Bool.and_eq_true, decide_eq_true_eq] using List.find?_some found
    simp only [CodePoint.code] at within
    have member := apart first (List.mem_of_find?_eq_some found)
    omega

theorem isHalf_of_isChar {accepts : Char → Bool} {c : CodePoint} (accepted : c.isChar accepts = true) :
    c.isHalf = false := by
  cases c with
  | char c => rfl
  | half offset => cases accepted

theorem unbroken_of_digits {t rest w : Text} (h : Scanner.digits t = some (w, rest)) : w.Unbroken :=
  fun c member => isHalf_of_isDigit (Scanner.some1_some h c member)

theorem unbroken_of_plainDecimal {t rest w : Text} (h : Call.plainDecimal t = some (w, rest)) : w.Unbroken := by
  obtain ⟨whole, middle, digits, h⟩ := Scanner.bind_some h
  have front := unbroken_of_digits digits
  rcases Scanner.orElse_some h with h | h
  · obtain ⟨mark, _, point, h⟩ := Scanner.bind_some h
    obtain ⟨fraction, _, many, h⟩ := Scanner.bind_some h
    obtain rfl := Scanner.pure_some h
    obtain ⟨rfl, rfl⟩ := Prod.mk.inj (Option.some.inj many)
    have mark := of_decide_eq_true (Scanner.point_some point)
    subst mark
    refine Text.unbroken_append.mpr ⟨front, ?_⟩
    rw [Text.Unbroken, List.forall_mem_cons]
    exact ⟨rfl, fun c member => isHalf_of_isDigit (List.mem_takeWhile_imp member)⟩
  · obtain rfl := Scanner.pure_some h
    exact front

/-! ### Texts of scripts -/

theorem unbroken_of_lineColor? {line color : Text} (h : lineColor? line = some color) : color.Unbroken := by
  obtain ⟨token, found, h⟩ := Option.bind_eq_some_iff.mp h
  obtain ⟨t, rest, read⟩ := Scanner.search_some found
  obtain ⟨_, _, _, read⟩ := Scanner.bind_some read
  obtain ⟨_, _, _, read⟩ := Scanner.bind_some read
  obtain ⟨_, _, _, read⟩ := Scanner.bind_some read
  obtain ⟨_, _, _, read⟩ := Scanner.bind_some read
  rcases Scanner.orElse_some read with hex | name
  · obtain ⟨sign, _, point, hex⟩ := Scanner.bind_some hex
    obtain ⟨digits, _, letters, hex⟩ := Scanner.bind_some hex
    obtain rfl := Scanner.pure_some hex
    have mark := of_decide_eq_true (Scanner.point_some point)
    subst mark
    obtain rfl := Option.some.inj h
    rw [Text.Unbroken, List.forall_mem_cons]
    refine ⟨rfl, fun c member => ?_⟩
    obtain ⟨i, inside, rfl⟩ := List.getElem_of_mem member
    obtain ⟨count, each⟩ := List.forall₂_iff_get.mp (Scanner.mapM_some letters)
    obtain ⟨_, _, point⟩ := each i (count ▸ inside) inside
    have accepted := Scanner.point_some point
    rw [List.get_eq_getElem, List.getElem_replicate] at accepted
    exact isHalf_of_isChar accepted
  · obtain ⟨_, _, _, name⟩ := Scanner.bind_some name
    obtain ⟨word, _, _, name⟩ := Scanner.bind_some name
    obtain rfl := Scanner.pure_some name
    have known : ∀ entry ∈ namedColors, ∀ c ∈ entry.2, c.isHalf = false := by decide
    obtain ⟨before, after, split, -⟩ := List.lookup_eq_some_iff.mp h
    exact known _ (split ▸ List.mem_append_right before List.mem_cons_self)

theorem unbroken_of_call {line period width : Text} (h : Scanner.search Call.bands line = some (period, width)) :
    period.Unbroken ∧ width.Unbroken := by
  obtain ⟨t, rest, h⟩ := Scanner.search_some h
  obtain ⟨_, _, _, h⟩ := Scanner.bind_some h
  obtain ⟨bars, _, first, h⟩ := Scanner.bind_some h
  obtain ⟨factor, _, second, h⟩ := Scanner.bind_some h
  obtain ⟨_, _, _, h⟩ := Scanner.bind_some h
  obtain ⟨rfl, rfl⟩ := Prod.mk.inj (Scanner.pure_some h)
  obtain ⟨_, _, _, first⟩ := Scanner.bind_some first
  obtain ⟨_, _, _, second⟩ := Scanner.bind_some second
  exact ⟨unbroken_of_digits first, unbroken_of_plainDecimal second⟩

theorem unbroken_of_short {line period width : Text} (h : Short.bands.read? line = some (period, width)) :
    period.Unbroken ∧ width.Unbroken := by
  obtain ⟨⟨_, rest⟩, h, rfl⟩ := Option.map_eq_some_iff.mp h
  obtain ⟨_, _, _, h⟩ := Scanner.bind_some h
  obtain ⟨_, _, _, h⟩ := Scanner.bind_some h
  obtain ⟨bars, _, first, h⟩ := Scanner.bind_some h
  obtain ⟨_, _, _, h⟩ := Scanner.bind_some h
  obtain ⟨factor, _, second, h⟩ := Scanner.bind_some h
  obtain ⟨_, _, _, h⟩ := Scanner.bind_some h
  obtain ⟨rfl, rfl⟩ := Prod.mk.inj (Scanner.pure_some h)
  exact ⟨unbroken_of_digits first, unbroken_of_plainDecimal second⟩

namespace Descriptor
variable {α : Type} [Arith α] {d : Descriptor α}

/-- The texts that a descriptor hands on. -/
structure IsUnbroken (d : Descriptor α) : Prop where
  name : d.name.Unbroken
  color : ∀ c, d.color = some c → c.Unbroken

omit [Arith α] in
theorem unbroken_keyword (kind : IndicatorKind) (period : Nat) :
    Text.Unbroken (kind.keyword ++ " " ++ toString period) := by
  simp only [Text.unbroken_append]
  exact ⟨⟨Text.unbroken_ofString _, Text.unbroken_ofString _⟩, Text.unbroken_ofString _⟩

theorem ofPeriod?_isUnbroken {kind : IndicatorKind} {digits : Text} {color : Option Text}
    (colored : ∀ c, color = some c → c.Unbroken) (h : ofPeriod? kind digits color = .ok d) : d.IsUnbroken := by
  obtain ⟨period, -, h⟩ := bind_ok h
  obtain ⟨ps, read, h⟩ := bind_ok h
  obtain rfl := pure_ok h
  exact ⟨unbroken_keyword _ _, colored⟩

theorem ofMacd?_isUnbroken {fast slow signal : Text} {color : Option Text}
    (colored : ∀ c, color = some c → c.Unbroken) (h : ofMacd? fast slow signal color = .ok d) : d.IsUnbroken := by
  obtain ⟨_, -, h⟩ := bind_ok h
  obtain ⟨_, -, h⟩ := bind_ok h
  obtain ⟨_, -, h⟩ := bind_ok h
  obtain ⟨ps, read, h⟩ := bind_ok h
  obtain rfl := pure_ok h
  exact ⟨Text.unbroken_ofString _, colored⟩

theorem ofBands?_isUnbroken {period width : Text} {color : Option Text} (bars : period.Unbroken)
    (factor : width.Unbroken) (colored : ∀ c, color = some c → c.Unbroken)
    (h : ofBands? period width color = .ok d) : d.IsUnbroken := by
  obtain ⟨_, -, h⟩ := bind_ok h
  obtain ⟨ps, read, h⟩ := bind_ok h
  obtain rfl := pure_ok h
  refine ⟨?_, colored⟩
  simp only [Text.unbroken_append]
  exact ⟨⟨⟨Text.unbroken_ofString _, bars⟩, Text.unbroken_ofString _⟩, factor⟩

theorem ofShort?_isUnbroken {word digits : Text} (h : ofShort? word digits = .ok d) : d.IsUnbroken := by
  obtain ⟨period, -, h⟩ := bind_ok h
  split at h
  · obtain ⟨ps, read, h⟩ := bind_ok h
    obtain rfl := pure_ok h
    exact ⟨unbroken_keyword _ _, nofun⟩
  · cases h

theorem unbroken_of_color (s : String) : ∀ c, some (Text.ofString s) = some c → c.Unbroken := by
  rintro _ ⟨rfl⟩
  exact Text.unbroken_ofString s

theorem ofLine?_isUnbroken {line : Text} (h : ofLine? line = .ok (some d)) : d.IsUnbroken := by
  unfold ofLine? at h
  split at h
  · exact ofPeriod?_isUnbroken (fun _ => unbroken_of_lineColor?) (ok_of_some h)
  split at h
  · exact ofPeriod?_isUnbroken (fun _ => unbroken_of_lineColor?) (ok_of_some h)
  split at h
  · exact ofPeriod?_isUnbroken (unbroken_of_color _) (ok_of_some h)
  split at h
  · exact ofMacd?_isUnbroken (unbroken_of_color _) (ok_of_some h)
  split at h
  · rename_i found
    obtain ⟨bars, factor⟩ := unbroken_of_call found
    exact ofBands?_isUnbroken bars factor (unbroken_of_color _) (ok_of_some h)
  split at h
  · exact ofShort?_isUnbroken (ok_of_some h)
  split at h
  · exact ofMacd?_isUnbroken (fun _ none => by cases none) (ok_of_some h)
  split at h
  · rename_i found
    obtain ⟨bars, factor⟩ := unbroken_of_short found
    exact ofBands?_isUnbroken bars factor (fun _ none => by cases none) (ok_of_some h)
  · cases h

end Descriptor

theorem Script.indicators?_isUnbroken {α : Type} [Arith α] {script : Text} {ds : List (Descriptor α)}
    (h : Script.indicators? script = .ok ds) : ∀ d ∈ ds, d.IsUnbroken := by
  obtain ⟨found, read, h⟩ := bind_ok h
  obtain rfl := pure_ok h
  intro d member
  obtain ⟨_, asked, rfl⟩ := List.mem_filterMap.mp member
  obtain ⟨line, -, read⟩ := mem_of_mapM read asked
  exact Descriptor.ofLine?_isUnbroken read

theorem Script.indicators?_of_ofText? {α : Type} [Arith α] {script : Text} {ds : List (Descriptor α)}
    (h : Script.ofText? script = .ok (.generic ds)) : Script.indicators? script = .ok ds := by
  unfold Script.ofText? at h
  split at h
  · cases h
  · cases h
  · obtain ⟨_, _, h⟩ := map_ok h
    cases h
  · obtain ⟨_, read, same⟩ := map_ok h
    cases same
    exact read

/-! ### Results -/

section Results
variable {α : Type} [Arith α] {history : History α}

structure Line.IsSendable (l : Line α) : Prop where
  label : l.label.Unbroken
  color : l.color.Unbroken
  width : l.width ∈ [1, 2, 3]
  style : l.style ∈ [none, some 2]

structure Result.IsSendable (r : Result α) : Prop where
  name : r.name.Unbroken
  lines : ∀ line ∈ r.lines, line.IsSendable

omit [Arith α] in
theorem Line.isSendable_ofString {label color : String} {points : List (Point α)} {width : Int} {style : Option Int}
    (width_mem : width ∈ [1, 2, 3]) (style_mem : style ∈ [none, some 2]) :
    ({ label, color, points, width, style } : Line α).IsSendable :=
  ⟨Text.unbroken_ofString _, Text.unbroken_ofString _, width_mem, style_mem⟩

omit [Arith α] in
theorem Descriptor.unbroken_lineColor {d : Descriptor α} (unbroken : d.IsUnbroken) (colorIndex : Int) :
    (d.lineColor colorIndex).Unbroken := by
  have default : (defaultColor colorIndex).Unbroken := by
    have all : ∀ color ∈ defaultColors, ∀ c ∈ color, c.isHalf = false := by decide
    exact all _ (List.mem_of_getElem? (defaultColors_defaultColor colorIndex))
  unfold lineColor
  cases named : d.color with
  | none => exact default
  | some own =>
    dsimp only
    split
    · exact default
    · exact unbroken.color own named

theorem Descriptor.resultOf_isSendable {d : Descriptor α} (unbroken : d.IsUnbroken) (colorIndex : Int) :
    (d.resultOf history colorIndex).IsSendable := by
  have name := unbroken.name
  have color := d.unbroken_lineColor unbroken colorIndex
  unfold resultOf
  cases d.kind with
  | sma | ema | rsi =>
    exact ⟨name, List.forall_mem_singleton.mpr ⟨name, color, by simp, by simp⟩⟩
  | macd =>
    refine ⟨Text.unbroken_ofString _, ?_⟩
    simp only [macdResult, List.forall_mem_cons]
    exact ⟨Line.isSendable_ofString (by simp) (by simp), Line.isSendable_ofString (by simp) (by simp),
      List.forall_mem_nil _⟩
  | bb =>
    refine ⟨name, ?_⟩
    simp only [bandResult, List.forall_mem_cons]
    exact ⟨Line.isSendable_ofString (by simp) (by simp), Line.isSendable_ofString (by simp) (by simp),
      Line.isSendable_ofString (by simp) (by simp), List.forall_mem_nil _⟩

theorem LogisticConfig.result_isSendable (config : LogisticConfig α) (loss prediction : List α) :
    (config.result history loss prediction).IsSendable := by
  refine ⟨Text.unbroken_ofString _, ?_⟩
  simp only [result, lines, List.forall_mem_append]
  refine ⟨?_, List.forall_mem_singleton.mpr (Line.isSendable_ofString (by simp) (by simp))⟩
  split
  · simp only [List.forall_mem_cons]
    exact ⟨Line.isSendable_ofString (by simp) (by simp), Line.isSendable_ofString (by simp) (by simp),
      List.forall_mem_nil _⟩
  · exact List.forall_mem_nil _

theorem RegressionConfig.result_isSendable (config : RegressionConfig) (average : List α) :
    (config.result history average).IsSendable := by
  refine ⟨Text.unbroken_ofString _, ?_⟩
  simp only [result, List.forall_mem_cons]
  exact ⟨Line.isSendable_ofString (by simp) (by simp), Line.isSendable_ofString (by simp) (by simp),
    List.forall_mem_nil _⟩

omit [Arith α] in
theorem BullBearConfig.result_isSendable (config : BullBearConfig α) (powers : Powers α) (traces : Traces α) :
    (config.result history powers traces).IsSendable := by
  refine ⟨Text.unbroken_ofString _, ?_⟩
  simp only [result, List.forall_mem_cons]
  exact ⟨Line.isSendable_ofString (by simp) (by simp), Line.isSendable_ofString (by simp) (by simp),
    Line.isSendable_ofString (by simp) (by simp), Line.isSendable_ofString (by simp) (by simp), List.forall_mem_nil _⟩

theorem Engine.compute_isSendable {e : Engine α} {o : Outcome α} {r : Result α} (h : e.compute history = .ok o)
    (drawn : o.indicator = some r) : r.IsSendable := by
  unfold compute at h
  split at h
  · cases e with
    | logistic config =>
      obtain ⟨scores, _, h⟩ := bind_ok h
      obtain ⟨loss, _, h⟩ := bind_ok h
      obtain ⟨prediction, _, h⟩ := bind_ok h
      obtain ⟨markers, _, h⟩ := bind_ok h
      obtain rfl := pure_ok h
      obtain rfl := Option.some.inj drawn
      exact config.result_isSendable loss prediction
    | regression config =>
      obtain ⟨average, _, h⟩ := bind_ok h
      obtain rfl := pure_ok h
      obtain rfl := Option.some.inj drawn
      exact config.result_isSendable average
    | bullBear config =>
      obtain ⟨powers, _, h⟩ := bind_ok h
      obtain ⟨direction, _, h⟩ := bind_ok h
      obtain ⟨traces, _, h⟩ := bind_ok h
      obtain rfl := pure_ok h
      obtain rfl := Option.some.inj drawn
      exact config.result_isSendable powers traces
  · obtain rfl := Except.ok.inj h
    cases drawn

/-- A drawing of a script. -/
def Drawing.IsRead : Drawing α → Prop
  | .indicator d _ => d.IsSound ∧ d.IsUnbroken
  | .engine _ => True

theorem Drawing.result?_isSendable {d : Drawing α} {r : Result α} (read : d.IsRead)
    (drawn : d.result? history = some r) : r.IsSendable := by
  cases d with
  | indicator d colorIndex =>
    obtain ⟨sound, unbroken⟩ := read
    have computed : (Drawing.indicator d colorIndex).outcome? history =
        .ok { indicator := if d.hasPeriods then some (d.resultOf history colorIndex) else none } := by
      rw [Drawing.outcome?, Descriptor.calculate_eq sound]
      rfl
    rw [Drawing.result?, Drawing.outcome_eq computed] at drawn
    dsimp only at drawn
    split at drawn
    · obtain rfl := Option.some.inj drawn
      exact Descriptor.resultOf_isSendable unbroken colorIndex
    · cases drawn
  | engine e =>
    rw [Drawing.result?, Drawing.outcome, Drawing.outcome?] at drawn
    cases computed : e.compute history with
    | ok o =>
      rw [computed] at drawn
      exact Engine.compute_isSendable computed drawn
    | error fault =>
      rw [computed] at drawn
      cases drawn

/-- How many lines of scripts may ask for something. -/
def lineCount (scripts : List Text) : Nat := (scripts.map fun script => (Script.lines script).length).sum

theorem Drawing.isRead_ofIndicators {ds : List (Descriptor α)} (sound : ∀ d ∈ ds, d.IsSound)
    (unbroken : ∀ d ∈ ds, d.IsUnbroken) (colorIndex : Int) : ∀ d ∈ Drawing.ofIndicators colorIndex ds, d.IsRead := by
  induction ds generalizing colorIndex with
  | nil => exact List.forall_mem_nil _
  | cons d rest ih =>
    obtain ⟨first, sound⟩ := List.forall_mem_cons.mp sound
    obtain ⟨first', unbroken⟩ := List.forall_mem_cons.mp unbroken
    exact List.forall_mem_cons.mpr ⟨⟨first, first'⟩, ih sound unbroken _⟩

/-- Every line asks for one indicator at the most. -/
theorem Script.length_indicators? {script : Text} {ds : List (Descriptor α)}
    (h : Script.indicators? script = .ok ds) : ds.length ≤ (Script.lines script).length := by
  obtain ⟨found, read, h⟩ := bind_ok h
  obtain rfl := pure_ok h
  rw [(mapM_ok_iff.mp read).length_eq]
  exact List.length_filterMap_le _ _

theorem Plan.ofScript_isRead {script : Text} {asked : Script α} (h : Script.ofText? script = .ok asked)
    (colorIndex : Int) : (∀ d ∈ (ofScript colorIndex asked).drawings, d.IsRead) ∧
      colorIndex ≤ (ofScript colorIndex asked).nextColorIndex ∧
      (ofScript colorIndex asked).nextColorIndex ≤ colorIndex + (Script.lines script).length := by
  cases asked with
  | engine e =>
    refine ⟨List.forall_mem_singleton.mpr trivial, le_rfl, ?_⟩
    simp [ofScript]
  | generic ds =>
    have read := Script.indicators?_of_ofText? h
    have few := Script.length_indicators? read
    have sound := Script.indicators?_isSound read
    have unbroken := Script.indicators?_isUnbroken read
    refine ⟨Drawing.isRead_ofIndicators sound unbroken _, ?_, ?_⟩ <;> simp only [ofScript] <;> omega

theorem Plan.ofScripts?_isRead {scripts : List Text} {colorIndex : Int} {plan : Plan α}
    (h : Plan.ofScripts? colorIndex scripts = .ok plan) : (∀ d ∈ plan.drawings, d.IsRead) ∧
      colorIndex ≤ plan.nextColorIndex ∧ plan.nextColorIndex ≤ colorIndex + lineCount scripts := by
  induction scripts generalizing colorIndex plan with
  | nil =>
    obtain rfl := Except.ok.inj h
    exact ⟨List.forall_mem_nil _, le_rfl, by simp [lineCount]⟩
  | cons script rest ih =>
    obtain ⟨asked, read, h⟩ := bind_ok h
    obtain ⟨later, tail, h⟩ := bind_ok h
    obtain rfl := pure_ok h
    obtain ⟨drawn, low, high⟩ := ofScript_isRead read colorIndex
    obtain ⟨drawn', low', high'⟩ := ih tail
    refine ⟨List.forall_mem_append.mpr ⟨drawn, drawn'⟩, low.trans low', ?_⟩
    have count : lineCount (script :: rest) = (Script.lines script).length + lineCount rest := List.sum_cons
    show later.nextColorIndex ≤ _
    rw [count]
    push_cast
    omega

end Results

/-! ### Answers -/

namespace Json

theorem all_array (holds : Json → Bool) (xs : List Json) : (array xs).all holds = xs.all (·.all holds) := by
  show allItems holds xs = _
  induction xs with
  | nil => rfl
  | cons x rest ih => rw [allItems, List.all_cons, ih]

theorem all_object (holds : Json → Bool) (fields : List (Text × Json)) :
    (object fields).all holds = fields.all fun f => holds (string f.1) && f.2.all holds := by
  show allFields holds fields = _
  induction fields with
  | nil => rfl
  | cons f rest ih => rw [allFields, List.all_cons, ih]

end Json

namespace Service

theorem fits_array {xs : List Json} : fits (.array xs) = true ↔ ∀ x ∈ xs, fits x = true := by
  simp [fits, Json.hasHalves, Json.all_array, forall_and]

theorem fits_object {fields : List (Text × Json)} :
    fits (.object fields) = true ↔ ∀ f ∈ fields, f.1.Unbroken ∧ fits f.2 = true := by
  simp [fits, Json.hasHalves, Json.all_object, Text.hasHalf_eq_false]
  constructor
  · rintro ⟨texts, wholes⟩ name x member
    exact ⟨(texts name x member).1, (texts name x member).2, wholes name x member⟩
  · intro each
    exact ⟨fun name x member => ⟨(each name x member).1, (each name x member).2.1⟩,
      fun name x member => (each name x member).2.2⟩

theorem fits_string {t : Text} : fits (.string t) = true ↔ t.Unbroken := by
  simp [fits, Json.hasHalves, Json.all, Text.hasHalf_eq_false]

theorem fits_whole {n : Int} : fits (.whole n) = true ↔ -wordBound ≤ n ∧ n < 2 * wordBound := by
  simp [fits, Json.hasHalves, Json.all]

theorem fits_number (x : Float) : fits (.number x) = true := rfl

theorem fits_fixed (s : String) : fits (.string s) = true := fits_string.mpr (Text.unbroken_ofString s)

theorem fits_field (name : String) {x : Json} {rest : List (Text × Json)} :
    fits (.object ((Text.ofString name, x) :: rest)) = true ↔ fits x = true ∧ fits (.object rest) = true := by
  rw [fits_object, fits_object, List.forall_mem_cons]
  exact and_congr_left fun _ => and_iff_right (Text.unbroken_ofString name)

theorem fits_empty : fits (.object []) = true := rfl

theorem fits_list {β : Type} {f : β → Json} {xs : List β} (each : ∀ x ∈ xs, fits (f x) = true) :
    fits (.array (xs.map f)) = true := fits_array.mpr (List.forall_mem_map.mpr each)

/-- A whole number that fits into a signed word. -/
def InWord (n : Int) : Prop := -wordBound ≤ n ∧ n < wordBound

theorem fits_of_inWord {n : Int} (h : InWord n) : fits (.whole n) = true := by
  have := h.1
  have := h.2
  rw [fits_whole]
  omega

theorem fits_candle {c : Candle Float} (time : InWord c.time) : fits c.report = true := by
  have volume : fits (.ofOption (c.volume.map .number)) = true := by cases c.volume <;> rfl
  simp only [Candle.report, fits_field, fits_of_inWord time, fits_number, volume, fits_empty, and_self]

theorem fits_point {p : Point Float} (time : InWord p.time) : fits p.report = true := by
  simp only [Point.report, fits_field, fits_of_inWord time, fits_number, fits_empty, and_self]

theorem fits_marker {m : Marker Float} (time : InWord m.time) : fits m.report = true := by
  simp only [Marker.report, fits_field, fits_of_inWord time, fits_fixed, fits_number, fits_empty, and_self]

theorem fits_line {l : Line Float} (sendable : l.IsSendable) (times : ∀ p ∈ l.points, InWord p.time) :
    fits l.report = true := by
  have small : ∀ n ∈ ([1, 2, 3] : List Int), fits (.whole n) = true := by decide
  have style : fits (.ofOption (l.style.map .whole)) = true := by
    have styles : ∀ s ∈ ([none, some 2] : List (Option Int)), fits (.ofOption (s.map .whole)) = true := by decide
    exact styles _ sendable.style
  have points := fits_list fun p member => fits_point (times p member)
  simp only [Line.report, fits_field, fits_string.mpr sendable.label, fits_string.mpr sendable.color,
    small _ sendable.width, style, points, fits_empty, and_self]

theorem fits_result {r : Result Float} (sendable : r.IsSendable)
    (times : ∀ line ∈ r.lines, ∀ p ∈ line.points, InWord p.time) : fits r.report = true := by
  have lines := fits_list fun line member => fits_line (sendable.lines line member) (times line member)
  simp only [Result.report, fits_field, fits_string.mpr sendable.name, fits_fixed, lines, fits_empty, and_self]

/-- What a batch comes to can be sent. -/
theorem fits_bundle {history : History Float} {scripts : List Text} {colorIndex : Int} {b : Bundle Float}
    {others : List (Text × Json)} (computed : overlays? history scripts colorIndex = .ok b)
    (times : ∀ c ∈ history.candles, InWord c.time) (low : -wordBound ≤ colorIndex)
    (high : colorIndex + lineCount scripts < wordBound) (more : fits (.object others) = true) :
    fits (.object (b.fields ++ others)) = true := by
  obtain ⟨plan, planned, succeeds, rfl⟩ := overlays?_ok_iff_plan.mp computed
  obtain ⟨read, above, below⟩ := Plan.ofScripts?_isRead planned
  have counter : InWord plan.nextColorIndex := ⟨by omega, by omega⟩
  -- what is drawn stands at times of candles, and those fit
  have results : ∀ r ∈ (plan.bundle history).results, fits r.report = true := by
    intro r member
    obtain ⟨d, inside, drawn⟩ := List.mem_filterMap.mp member
    refine fits_result (Drawing.result?_isSendable (read d inside) drawn) fun line inside p point => ?_
    have placed := (d.outcome_isPlaced history).result r drawn line inside
    obtain ⟨c, candle, same⟩ := List.mem_map.mp (placed.subset (List.mem_map_of_mem point))
    exact same ▸ times c candle
  have markers : ∀ m ∈ (plan.bundle history).sorted.markers, fits m.report = true := by
    intro m member
    obtain ⟨d, _, member⟩ := List.mem_flatMap.mp ((sorted_markers _).perm.mem_iff.mp member)
    obtain ⟨c, candle, same⟩ := (d.outcome_isPlaced history).markers m member
    exact fits_marker (by rw [same]; exact times c candle)
  show fits (.object (_ :: _ :: _ :: others)) = true
  simp only [fits_field]
  exact ⟨fits_list results, fits_list markers, fits_of_inWord counter, more⟩

/-! ### Requests -/

theorem mem_intercalate {β : Type} {sep x : List β} {xs : List (List β)} {b : β} (member : x ∈ xs) (inside : b ∈ x) :
    b ∈ List.intercalate sep xs := by
  induction xs with
  | nil => cases member
  | cons y rest ih =>
    cases rest with
    | nil =>
      obtain rfl := List.mem_singleton.mp member
      rwa [List.intercalate_singleton]
    | cons z rest =>
      rw [List.intercalate_cons_cons, List.mem_append, List.mem_append]
      rcases List.mem_cons.mp member with rfl | later
      · exact .inl (.inl inside)
      · exact .inr (ih later)

open Json in
/-- What stands in the text of a field stands in the text of the record. -/
theorem mem_render_object {style : Style} {depth : Nat} {fields : List (Text × Json)} {name : Text} {x : Json}
    {c : CodePoint} (member : (name, x) ∈ fields) (inside : c ∈ render style (depth + 1) x) :
    c ∈ render style depth (.object fields) := by
  have field : ∃ t ∈ renderFields style (depth + 1) fields, c ∈ t := by
    induction fields with
    | nil => cases member
    | cons f rest ih =>
      rw [renderFields]
      rcases List.mem_cons.mp member with rfl | later
      · exact ⟨_, List.mem_cons_self, List.mem_append_right _ inside⟩
      · obtain ⟨t, known, here⟩ := ih later
        exact ⟨t, List.mem_cons_of_mem _ known, here⟩
  obtain ⟨t, known, here⟩ := field
  have filled : (renderFields style (depth + 1) fields).isEmpty = false := by
    rw [List.isEmpty_eq_false_iff]
    exact List.ne_nil_of_mem known
  have shown : c ∈ List.intercalate "," ((renderFields style (depth + 1) fields).map (style.item depth ++ ·)) :=
    mem_intercalate (List.mem_map_of_mem known) (List.mem_append_right _ here)
  rw [render, enclosed, filled, if_neg Bool.false_ne_true]
  exact List.mem_append_left _ (List.mem_append_left _ (List.mem_append_right _ shown))

theorem mem_stringText {t : Text} {c : CodePoint} (member : c ∈ t) (half : c.isHalf = true) :
    c ∈ Json.stringText .direct t := by
  have plain : Json.pointText .direct c = [c] := by
    cases c with
    | char c => cases half
    | half offset =>
      have controls : 0xd800 + offset.val ≠ 8 ∧ 0xd800 + offset.val ≠ 12 ∧ 0x20 ≤ 0xd800 + offset.val := by omega
      simp [Json.pointText, Json.Style.direct, CodePoint.code, controls, doubleQuote]
  refine List.mem_append_left _ (List.mem_cons_of_mem _ (List.mem_flatMap.mpr ⟨c, member, ?_⟩))
  rw [plain]
  exact List.mem_singleton_self c

theorem unbroken_of_utf8? {t : Text} (none : CodingError.utf8? t = none) : t.Unbroken := by
  unfold CodingError.utf8? CodingError.ofText? at none
  dsimp only at none
  split at none
  · rename_i silent
    have whole : t.dropWhile (fun c => !c.isHalf) = [] := by
      by_contra filled
      have half := List.head_dropWhile_not (fun c : CodePoint => !c.isHalf) filled
      rw [← List.cons_head_tail filled, List.takeWhile_cons, half] at silent
      cases silent
    intro c member
    simpa using List.dropWhile_eq_nil_iff.mp whole c member
  · cases none

theorem lookup_of_half {name : Text} {c : CodePoint} (member : c ∈ name) (half : c.isHalf = true) :
    timeframes.lookup name = none := by
  have known : ∀ entry ∈ timeframes, ∀ c ∈ entry.1, c.isHalf = false := by decide
  cases found : timeframes.lookup name with
  | none => rfl
  | some other =>
    obtain ⟨before, after, split, -⟩ := List.lookup_eq_some_iff.mp found
    have clear := known _ (split ▸ List.mem_append_right before List.mem_cons_self) c member
    rw [clear] at half
    cases half

/-- A request for a chart is sent only if its timeframe can be written. -/
theorem unbroken_of_sent {query : ChartQuery} {name : Text} (named : query.timeframe = .string name)
    (sent : query.sent?.isSome) : name.Unbroken := by
  intro c member
  rw [← Bool.not_eq_true]
  intro half
  let request : ProxyRequest :=
    { endpoint := .string "/v2/chart/price"
      params := .object
        [("symbol", .string (marketSymbol query.symbol)), ("timeframe", .string name), ("range", query.range)] }
  have asked : ProxyRequest.chart? query = .ok request := by
    rw [ProxyRequest.chart?, named, providerTimeframe?, lookup_of_half member half]
    rfl
  have written : c ∈ request.body.directText :=
    mem_render_object (List.mem_cons_of_mem _ List.mem_cons_self)
      (mem_render_object (List.mem_cons_of_mem _ List.mem_cons_self) (mem_stringText member half))
  have refused : request.sendError? ≠ none := by
    intro none
    rw [ProxyRequest.sendError?, SendError.ofValue?] at none
    split at none
    · cases none
    · rw [unbroken_of_utf8? (Option.map_eq_none_iff.mp none) c written] at half
      cases half
  simp [ChartQuery.sent?, asked, Except.toOption, refused] at sent

end Service

end ChartOverlay
