import ChartOverlay.Proofs.Constants

/-!
# Assignments to any identifier

The scanners of parameters do not ask where an identifier begins, nor where a constant ends. An equals sign with a call
after it stands in a row once, so a row is read exactly where its identifier ends in the name of a parameter
(`place_of_opening`); what is read of a script follows row by row (`search_script`), and with it the configuration of
each engine (`ofScript_of_rows`).
-/

namespace ChartOverlay

/-! ### Searching a text by its parts -/

theorem eq_of_append_cons_first {s s' t t' : Text} {c : CodePoint} (h : s ++ c :: t = s' ++ c :: t') (first : c ∉ s)
    (first' : c ∉ s') : s = s' := by
  rcases List.append_eq_append_iff.mp h with ⟨x, rfl, after⟩ | ⟨x, rfl, after⟩
  · rcases x with _ | ⟨d, x⟩
    · exact (List.append_nil s).symm
    · exact absurd ((List.cons.inj after).1 ▸ by simp) first'
  · rcases x with _ | ⟨d, x⟩
    · exact List.append_nil s'
    · exact absurd ((List.cons.inj after).1 ▸ by simp) first

namespace Scanner
variable {β : Type} {p : Scanner β} {a place t : Text}

theorem search_append_of_silent (silent : ∀ v, v <:+ a → v ≠ [] → p (v ++ t) = none) :
    search p (a ++ t) = search p t := by
  induction a with
  | nil => rfl
  | cons c a ih =>
    have here := silent (c :: a) List.suffix_rfl (List.cons_ne_nil c a)
    have later := ih fun v suffix => silent v (suffix.trans (List.suffix_cons c a))
    rw [List.cons_append] at here ⊢
    simp [search, read?, here, later]

/-- Where a scanner reads at one place only, that is what a search finds first. -/
theorem search_append_of_single (inside : place <:+ a) (filled : place ≠ [])
    (only : ∀ v, v <:+ a → v ≠ [] → p (v ++ t) ≠ none → v = place) :
    search p (a ++ t) = (p.read? (place ++ t) <|> search p t) := by
  obtain ⟨front, rfl⟩ := inside
  obtain ⟨c, place, rfl⟩ := List.exists_cons_of_ne_nil filled
  -- the texts on both sides of the place are silent, since a text that starts there is longer or shorter
  have before : search p ((front ++ c :: place) ++ t) = search p (c :: place ++ t) := by
    rw [List.append_assoc]
    refine search_append_of_silent fun v suffix filled => ?_
    by_contra found
    rw [← List.append_assoc] at found
    obtain ⟨u, rfl⟩ := suffix
    have same := only (v ++ c :: place) ⟨u, by simp⟩ (by simp) found
    exact filled (List.append_left_eq_self.mp same)
  have after : search p (place ++ t) = search p t := by
    refine search_append_of_silent fun v suffix filled => ?_
    by_contra found
    have same := only v (suffix.trans ⟨front ++ [c], by simp⟩) filled found
    have short := suffix.length_le
    simp [same] at short
  rw [before, List.cons_append, search, after]

end Scanner

namespace Input

open Scanner

variable {β : Type}

/-! ### Rows -/

def callFront (after inner : Blanks) : Text := after.1 ++ (("input" : Text) ++ (inner.1 ++ [.char '(']))

/-- An equals sign and the front of a call after it. -/
def mark (after inner : Blanks) : Text := .char '=' :: callFront after inner

theorem notMem_mark {after inner : Blanks} {c : CodePoint} (visible : isBlank c = false) (other : c ≠ '=')
    (other' : c ≠ '(') (foreign : c ∉ ("input" : Text)) : c ∉ mark after inner := by
  simp [mark, callFront, after.notMem visible, inner.notMem visible, other, other', foreign]

/-- A text without an assignment of its own. -/
def IsQuiet (t : Text) : Prop := ∀ after inner : Blanks, ¬mark after inner <:+: t

theorem isQuiet_of_search {t : Text} (h : search (opening []) t = none) : IsQuiet t := by
  rintro after inner ⟨front, rest, split⟩
  have reads : ∀ (t : Text) (v : Unit), (opening []).read? t = some v ↔ (opening []).read? t = some v :=
    fun _ _ => Iff.rfl
  refine (search_none_iff reads).mp h ⟨front, mark after inner ++ rest, (), by rw [← split]; simp, ?_⟩
  have here := opening_written [] ⟨[], by simp⟩ after inner rest
  refine read?_iff.mpr ⟨rest, ?_⟩
  rw [← here]
  simp [written, mark, callFront]

theorem IsQuiet.append_cons {s t : Text} {c : CodePoint} (left : IsQuiet s) (right : IsQuiet t)
    (foreign : ∀ after inner : Blanks, c ∉ mark after inner) : IsQuiet (s ++ c :: t) :=
  fun after inner => not_infix_append_cons (foreign after inner) (left after inner) (right after inner)

theorem isQuiet_of_notMem {t : Text} (lacks : CodePoint.char 'n' ∉ t) : IsQuiet t := by
  have letter : CodePoint.char 'n' ∈ ("input" : Text) := by decide
  exact fun _ _ => not_infix_of_notMem (by simp [mark, callFront, letter]) lacks

structure IsIdent (name : Text) : Prop where
  filled : name ≠ []
  word : ∀ c ∈ name, isWord c = true

instance (name : Text) : Decidable (IsIdent name) :=
  decidable_of_iff (name ≠ [] ∧ ∀ c ∈ name, isWord c = true) ⟨fun h => ⟨h.1, h.2⟩, fun h => ⟨h.1, h.2⟩⟩

theorem IsIdent.notMem {name : Text} (h : IsIdent name) {c : CodePoint} (other : isWord c = false) : c ∉ name := by
  intro member
  rw [h.word c member] at other
  cases other

theorem IsIdent.endsVisibly {name : Text} (h : IsIdent name) : EndsVisibly name := by
  refine ⟨name.getLast h.filled, List.getLast?_eq_some_getLast h.filled, ?_⟩
  rw [← Bool.not_eq_true]
  intro blank
  have letter := h.word _ (List.getLast_mem h.filled)
  rw [isWord_of_isBlank blank] at letter
  cases letter

structure Spacing where
  beforeEquals : Blanks := ⟨[], nofun⟩
  afterEquals : Blanks := ⟨[], nofun⟩
  beforeBracket : Blanks := ⟨[], nofun⟩
  afterBracket : Blanks := ⟨[], nofun⟩
  afterWord : Blanks := ⟨[], nofun⟩
  beforeTitle : Blanks := ⟨[], nofun⟩
  afterTitle : Blanks := ⟨[], nofun⟩
  afterComma : Blanks := ⟨[], nofun⟩
  afterDefault : Blanks := ⟨[], nofun⟩
  beforeValue : Blanks := ⟨[], nofun⟩
  afterValue : Blanks := ⟨[], nofun⟩

def Spacing.wide : Spacing where
  beforeEquals := ⟨" ", by decide⟩
  afterEquals := ⟨" ", by decide⟩
  afterComma := ⟨" ", by decide⟩

/-- An assignment of a constant to any identifier, with a title that has no assignment in it. -/
structure Row where
  ident : Text
  named : IsIdent ident
  value : Constant
  title : Text
  quiet : search (opening []) title = none
  spacing : Spacing := {}

namespace Row

def equals (row : Row) : Text := mark row.spacing.afterEquals row.spacing.beforeBracket

/-- What stands after the identifier, given what stands in the brackets. -/
def tail (row : Row) (inner : Text) : Text :=
  row.spacing.beforeEquals.1 ++ (row.equals ++ (inner ++ [.char ')']))

end Row

section Opening
variable {name : Text} (known : IsIdent name) {row : Row} {inner v rest : Text}

theorem equals_notMem {t : Text} (h : IsIdent t) (b : Blanks) : CodePoint.char '=' ∉ t ++ b.1 := by
  simp [h.notMem (by decide +kernel : isWord '=' = false), b.notMem (by decide : isBlank '=' = false)]

theorem opening_eq {t : Text} (opens : opening name t ≠ none) :
    ∃ (before after hole : Blanks) (rest : Text), t = (name ++ before.1) ++ (mark after hole ++ rest) := by
  obtain ⟨⟨_, rest⟩, reads⟩ := Option.ne_none_iff_exists'.mp opens
  obtain ⟨before, after, hole, rfl⟩ := opening_some reads
  exact ⟨before, after, hole, rest, by simp [written, mark, callFront]⟩

include known

theorem opening_nil : opening name [] = none := by
  obtain ⟨c, t, rfl⟩ := List.exists_cons_of_ne_nil known.filled
  simp [opening, bind, StateT.bind, Scanner.text, List.isPrefixOf?]

/-- No opening stands between the equals sign of a row and its closing bracket. -/
theorem opening_after_equals (quiet : IsQuiet inner) {w : Text} (split : row.equals ++ (inner ++ [.char ')']) = w ++ v)
    (filled : v ≠ []) : opening name (v ++ rest) = none := by
  by_contra opens
  obtain ⟨before, after, hole, rest', whole⟩ := opening_eq opens
  rcases w with _ | ⟨c, w⟩
  · obtain ⟨c, name, rfl⟩ := List.exists_cons_of_ne_nil known.filled
    obtain rfl : v = _ := split.symm
    obtain ⟨rfl, -⟩ := List.cons.inj whole
    exact equals_notMem known before List.mem_cons_self
  -- what is left of the row ends with the bracket, so the opening is before the bracket
  obtain ⟨v, last, rfl⟩ := (List.eq_nil_or_concat' v).resolve_left filled
  have behind : (callFront row.spacing.afterEquals row.spacing.beforeBracket ++ inner) ++ [.char ')'] =
      (w ++ v) ++ [last] := by
    rw [List.append_assoc, List.append_assoc]
    exact (List.cons.inj split).2
  obtain ⟨content, same⟩ := List.append_inj' behind rfl
  cases same
  have bracket : CodePoint.char ')' ∉ mark after hole := notMem_mark (by decide) (by decide) (by decide) (by decide)
  have bracket' : CodePoint.char ')' ∉ name ++ before.1 := by
    simp [known.notMem (by decide +kernel : isWord ')' = false), before.notMem (by decide : isBlank ')' = false)]
  have occurs : OccursAfter (mark after hole) (name ++ before.1) (v ++ .char ')' :: rest) :=
    ⟨rest', by simpa using whole.symm⟩
  rcases occurs.split bracket with inside | ⟨front, crossing, -⟩
  · obtain ⟨x, y, within⟩ := inside.infix.trans (List.suffix_append w v).isInfix
    rw [← content] at within
    have lacks : CodePoint.char '=' ∉ callFront row.spacing.afterEquals row.spacing.beforeBracket := by
      have word : CodePoint.char '=' ∉ ("input" : Text) := by decide
      simp [callFront, Blanks.notMem (by decide : isBlank '=' = false), word]
    obtain ⟨_, -, later⟩ := OccursAfter.of_append ⟨y, within⟩ lacks
    exact quiet after hole later.infix
  · exact bracket' (crossing ▸ by simp)

/-- In a row, an opening stands only where the identifier ends in the name. -/
theorem place_of_opening (quiet : IsQuiet inner) (inside : v <:+ row.ident ++ row.tail inner) (filled : v ≠ [])
    (opens : opening name (v ++ rest) ≠ none) : ∃ s, row.ident = s ++ name ∧ v = name ++ row.tail inner := by
  obtain ⟨u, inside⟩ := inside
  have inside : u ++ v = (row.ident ++ row.spacing.beforeEquals.1) ++ (row.equals ++ (inner ++ [.char ')'])) := by
    rw [inside, Row.tail, List.append_assoc]
  rcases List.append_eq_append_iff.mp inside with ⟨w, front, rfl⟩ | ⟨w, -, behind⟩
  · -- it starts before the equals sign of the row, so it is this sign that it reads
    obtain ⟨before, after, hole, rest', whole⟩ := opening_eq opens
    have lacks : CodePoint.char '=' ∉ w := by
      intro member
      apply equals_notMem row.named row.spacing.beforeEquals
      rw [front]
      exact List.mem_append_right u member
    rw [List.append_assoc] at whole
    have same : w = name ++ before.1 := eq_of_append_cons_first whole lacks (equals_notMem known before)
    rw [same, ← List.append_assoc] at front
    have names : row.ident = u ++ name :=
      eq_of_append_blanks row.named.endsVisibly (known.endsVisibly.append u) front
    rw [names] at front
    have blanks := List.append_cancel_left front
    refine ⟨u, names, ?_⟩
    rw [same, ← blanks, Row.tail, List.append_assoc]
  · exact absurd (opening_after_equals known quiet behind filled) opens

end Opening

/-! ### Reading a row -/

/-- A way to write assignments: what stands in the brackets, and which rows show their value to a scanner. -/
structure Style where
  form : InputForm
  inner : Row → Text
  shows : Row → Bool
  /-- The titles that such a row may have. -/
  fits : Row → Prop
  quiet : ∀ row, IsQuiet (inner row)
  opens : ∀ {β : Type} (scanner : Scanner β) (name t : Text), form.find scanner name t ≠ none → opening name t ≠ none
  reads : ∀ {β : Type} (kind : Kind β) (name : Text) (row : Row) (rest : Text), fits row →
    (form.find kind.scanner name).read? (name ++ row.tail (inner row) ++ rest) =
      if shows row then kind.begins row.value else none

namespace Style
variable (style : Style)

def line (row : Row) : Text := row.ident ++ row.tail (style.inner row)

def script (rows : List Row) : Text := List.intercalate ['\n'] (rows.map style.line)

/-- What is read on the first row whose identifier ends in a name and whose value begins with what is looked for. -/
def first {β : Type} (rows : List Row) (name : Text) (begins : Constant → Option β) : Option β :=
  rows.findSome? fun row => if name <:+ row.ident ∧ style.shows row then begins row.value else none

end Style

section Search
variable {style : Style} {name : Text} (known : IsIdent name) (kind : Kind β)
include known

theorem search_line {row : Row} (fits : style.fits row) (rest : Text) :
    search (style.form.find kind.scanner name) (style.line row ++ rest) =
      ((if name <:+ row.ident ∧ style.shows row then kind.begins row.value else none) <|>
        search (style.form.find kind.scanner name) rest) := by
  have place {v : Text} (suffix : v <:+ style.line row) (filled : v ≠ [])
      (found : style.form.find kind.scanner name (v ++ rest) ≠ none) :=
    place_of_opening known (style.quiet row) suffix filled (style.opens _ _ _ found)
  by_cases ending : name <:+ row.ident
  · have inside : name ++ row.tail (style.inner row) <:+ style.line row := by
      obtain ⟨s, same⟩ := ending
      exact ⟨s, by rw [Style.line, ← same, List.append_assoc]⟩
    have filled : name ++ row.tail (style.inner row) ≠ [] := by simp [known.filled]
    rw [search_append_of_single inside filled fun v suffix filled found =>
      (place suffix filled found).choose_spec.2, style.reads kind name row rest fits]
    simp [ending]
  · have silent : search (style.form.find kind.scanner name) (style.line row ++ rest) =
        search (style.form.find kind.scanner name) rest := by
      apply search_append_of_silent
      intro v suffix filled
      by_contra found
      obtain ⟨s, same, -⟩ := place suffix filled found
      exact ending ⟨s, same.symm⟩
    simp [silent, ending]

theorem search_nil : search (style.form.find kind.scanner name) [] = none := by
  have silent : style.form.find kind.scanner name [] = none := by
    by_contra found
    exact style.opens _ _ _ found (opening_nil known)
  simp [search, read?, silent]

theorem search_newline (t : Text) : search (style.form.find kind.scanner name) (.char '\n' :: t) =
    search (style.form.find kind.scanner name) t := by
  have silent : style.form.find kind.scanner name (.char '\n' :: t) = none := by
    by_contra found
    obtain ⟨c, name, rfl⟩ := List.exists_cons_of_ne_nil known.filled
    obtain ⟨before, after, hole, rest, whole⟩ := opening_eq (style.opens _ _ _ found)
    obtain ⟨rfl, -⟩ := List.cons.inj whole
    exact known.notMem (by decide +kernel : isWord '\n' = false) List.mem_cons_self
  simp [search, read?, silent]

theorem search_script {rows : List Row} (fits : ∀ row ∈ rows, style.fits row) :
    search (style.form.find kind.scanner name) (style.script rows) = style.first rows name kind.begins := by
  -- one row after the other, with the line break between them
  induction rows with
  | nil => exact search_nil known kind
  | cons row rows ih =>
    have ⟨here, others⟩ := List.forall_mem_cons.mp fits
    have step : style.first (row :: rows) name kind.begins =
        ((if name <:+ row.ident ∧ style.shows row then kind.begins row.value else none) <|>
          style.first rows name kind.begins) := by
      rw [Style.first, List.findSome?_cons]
      cases (if name <:+ row.ident ∧ style.shows row = true then kind.begins row.value else none) <;> rfl
    rw [step, ← ih others]
    rcases rows with _ | ⟨next, rows⟩
    · have alone : style.script [row] = style.line row ++ [] := by simp [Style.script]
      rw [alone]
      exact search_line known kind here []
    · have split : style.script (row :: next :: rows) = style.line row ++ .char '\n' :: style.script (next :: rows) :=
        List.intercalate_cons_cons.trans (by simp [Style.script])
      rw [split, search_line known kind here, search_newline known kind]

end Search

/-! ### The two styles -/

theorem read?_bind_of_some {γ : Type} {p : Scanner γ} {f : γ → Scanner β} {t rest : Text} {v : γ}
    (reads : p t = some (v, rest)) : (p >>= f).read? t = (f v).read? rest := by
  rw [read?, bind_of_some reads, read?]

theorem read?_constant (kind : Kind β) (x : Constant) (b b' : Blanks) {c : CodePoint} (ends : Ends c) (t : Text) :
    (do blanks; kind.scanner : Scanner β).read? (b.1 ++ (x.text ++ (b'.1 ++ c :: t))) = kind.begins x := by
  obtain ⟨d, u, first, visible⟩ := x.visible (b'.1 ++ c :: t)
  have skipped := blanks_append b visible u
  rw [← first] at skipped
  rw [read?_bind_of_some skipped]
  rcases blanks : b'.1 with _ | ⟨e, b''⟩
  · exact kind.reads x c t ends
  · refine kind.reads x e _ (Or.inl (b'.2 e ?_))
    rw [blanks]
    exact List.mem_cons_self

theorem opening_row {name : Text} (row : Row) (inner rest : Text) :
    opening name (name ++ row.tail inner ++ rest) = some ((), inner ++ .char ')' :: rest) := by
  rw [← opening_written name row.spacing.beforeEquals row.spacing.afterEquals row.spacing.beforeBracket]
  simp [written, Row.tail, Row.equals, mark, callFront]

namespace Row

def quotedTitle (row : Row) (rest : Text) : Text := .char '\'' :: (row.title ++ .char '\'' :: rest)

def leadingInner (row : Row) : Text :=
  row.spacing.afterBracket.1 ++ (row.value.text ++ (row.spacing.afterValue.1 ++
    .char ',' :: (row.spacing.afterComma.1 ++ row.quotedTitle row.spacing.afterTitle.1)))

theorem quotedTitle_isQuiet (row : Row) {s t : Text} (left : IsQuiet s) (right : IsQuiet t) :
    IsQuiet (s ++ row.quotedTitle t) := by
  have quote (after inner : Blanks) : CodePoint.char '\'' ∉ mark after inner :=
    notMem_mark (by decide) (by decide) (by decide) (by decide)
  exact left.append_cons ((isQuiet_of_search row.quiet).append_cons right quote) quote

theorem leadingInner_isQuiet (row : Row) : IsQuiet row.leadingInner := by
  have front : IsQuiet (row.spacing.afterBracket.1 ++ (row.value.text ++ (row.spacing.afterValue.1 ++
      .char ',' :: row.spacing.afterComma.1))) := by
    apply isQuiet_of_notMem
    simp [Blanks.notMem (by decide : isBlank 'n' = false), row.value.notMem (c := 'n') (by decide)]
  have whole := row.quotedTitle_isQuiet front (isQuiet_of_notMem (row.spacing.afterTitle.notMem (by decide)))
  simpa [leadingInner] using whole

end Row

section Leading
variable (scanner : Scanner β) (name : Text)

theorem opens_of_leading (t : Text) : leading scanner name t ≠ none → opening name t ≠ none := opens_of_find

theorem leading_read? (kind : Kind β) (row : Row) (rest : Text) :
    (leading kind.scanner name).read? (name ++ row.tail row.leadingInner ++ rest) = kind.begins row.value := by
  rw [leading, read?_bind_of_some (opening_row row _ rest), Row.leadingInner]
  simp only [List.append_assoc, List.cons_append]
  exact read?_constant kind row.value _ _ (Or.inr (Or.inl rfl)) _

end Leading

def Style.leading : Style where
  form := .leading
  inner := Row.leadingInner
  shows _ := true
  fits _ := True
  quiet := Row.leadingInner_isQuiet
  opens := opens_of_leading
  reads kind name row rest _ := leading_read? name kind row rest

section LastBefore
variable {stop : CodePoint → Bool} {p : Scanner β} {a t : Text}

theorem lastBefore_append_of_silent (passes : ∀ c ∈ a, stop c = false)
    (silent : ∀ v, v <:+ a → v ≠ [] → p (v ++ t) = none) : lastBefore stop p (a ++ t) = lastBefore stop p t := by
  induction a with
  | nil => rfl
  | cons c a ih =>
    have ⟨here, others⟩ := List.forall_mem_cons.mp passes
    have first := silent (c :: a) List.suffix_rfl (List.cons_ne_nil c a)
    have later := ih others fun v suffix => silent v (suffix.trans (List.suffix_cons c a))
    rw [List.cons_append] at first ⊢
    rw [lastBefore, here, later, first]
    cases lastBefore stop p t <;> rfl

theorem lastBefore_cons_of_stop {c : CodePoint} (ends : stop c = true) : lastBefore stop p (c :: t) = p (c :: t) := by
  rw [lastBefore, if_pos ends]
  rfl

theorem defval_of_default {scanner : Scanner β} (reads : default scanner t ≠ none) : ("defval" : Text) <+: t := by
  obtain ⟨⟨_, rest⟩, reads⟩ := Option.ne_none_iff_exists'.mp reads
  obtain ⟨_, _, word, -⟩ := bind_some reads
  exact ⟨_, text_some_iff.mp word⟩

/-- In front of what is no letter of the word, a default value is read only where the word is. -/
theorem default_silent {scanner : Scanner β} {v : Text} {c : CodePoint} (free : ¬("defval" : Text) <:+: v)
    (foreign : c ∉ ("defval" : Text)) : default scanner (v ++ c :: t) = none := by
  by_contra found
  have occurs : OccursAfter "defval" [] (v ++ c :: t) := defval_of_default found
  rcases occurs.split foreign with inside | ⟨front, crossing, -⟩
  · exact free inside.infix
  · simp at crossing

end LastBefore

namespace Row

def titleFront (row : Row) : Text :=
  row.spacing.afterBracket.1 ++ (("title" : Text) ++
    (row.spacing.afterWord.1 ++ .char '=' :: row.spacing.beforeTitle.1))

def defaultValue (row : Row) : Text :=
  row.spacing.afterDefault.1 ++ .char '=' :: (row.spacing.beforeValue.1 ++ (row.value.text ++ row.spacing.afterValue.1))

def namedInner (row : Row) : Text :=
  row.titleFront ++ row.quotedTitle (row.spacing.afterTitle.1 ++
    .char ',' :: (row.spacing.afterComma.1 ++ (("defval" : Text) ++ row.defaultValue)))

theorem notMem_titleFront (row : Row) {c : CodePoint} (visible : isBlank c = false) (other : c ∉ ("title=" : Text)) :
    c ∉ row.titleFront := by
  have letters : c ∉ ("title" : Text) ∧ c ≠ '=' := by
    refine ⟨fun member => other ?_, ?_⟩
    · exact (by decide : ("title" : Text) ⊆ "title=") member
    · rintro rfl
      exact other (by decide)
  simp [titleFront, Blanks.notMem visible, letters]

theorem notMem_defaultValue (row : Row) {c : CodePoint} (visible : isBlank c = false) (other : c ≠ '=')
    (other' : ¬(isDigit c = true ∨ c ∈ (".+-eEtrufals" : Text))) : c ∉ row.defaultValue := by
  simp [defaultValue, Blanks.notMem visible, other, row.value.notMem other']

theorem namedInner_isQuiet (row : Row) : IsQuiet row.namedInner := by
  have front : IsQuiet row.titleFront := isQuiet_of_notMem (row.notMem_titleFront (by decide) (by decide))
  refine row.quotedTitle_isQuiet front (isQuiet_of_notMem ?_)
  have word : CodePoint.char 'n' ∉ ("defval" : Text) := by decide
  simp [Blanks.notMem (by decide : isBlank 'n' = false), word,
    row.notMem_defaultValue (c := 'n') (by decide) (by decide) (by decide)]

theorem lastBefore_defval (kind : Kind β) (row : Row) (rest : Text) :
    (lastBefore (· = ')') (default kind.scanner)).read? (("defval" : Text) ++ (row.defaultValue ++ .char ')' :: rest)) =
      kind.begins row.value := by
  have word (t : Text) : ("defval" : Text) ++ t = .char 'd' :: (("efval" : Text) ++ t) := rfl
  -- there is no letter d behind the first one of the word, so the word does not come again before the bracket
  have later : lastBefore (· = ')') (default kind.scanner)
      (("efval" : Text) ++ (row.defaultValue ++ .char ')' :: rest)) = none := by
    rw [← List.append_assoc]
    refine lastBefore_eq_none (by decide) fun c member t => default_eq_none ?_ t
    rintro rfl
    have letters : CodePoint.char 'd' ∉ ("efval" : Text) := by decide
    simp [letters, row.notMem_defaultValue (c := 'd') (by decide) (by decide) (by decide)] at member
  have here : lastBefore (· = ')') (default kind.scanner)
      (("defval" : Text) ++ (row.defaultValue ++ .char ')' :: rest)) =
      default kind.scanner (("defval" : Text) ++ (row.defaultValue ++ .char ')' :: rest)) := by
    rw [word, lastBefore, later]
    rfl
  rw [read?, here, ← read?, default, read?_bind_of_some (text_append _ _), defaultValue]
  simp only [List.append_assoc, List.cons_append]
  rw [read?_bind_of_some (blanks_append row.spacing.afterDefault (by decide) _),
    read?_bind_of_some (discard_point_cons _ _)]
  exact read?_constant kind row.value _ _ (Or.inr (Or.inr rfl)) rest

section Title
variable {scanner : Scanner β} {row : Row} (fits : ¬("defval" : Text) <:+: row.title) (rest : Text)
include fits

/-- A bracket in the title ends the search for a default value too soon. -/
theorem lastBefore_hidden (bracket : CodePoint.char ')' ∈ row.title) :
    lastBefore (· = ')') (default scanner) (row.namedInner ++ .char ')' :: rest) = none := by
  obtain ⟨x, y, split, first⟩ := List.eq_append_cons_of_mem bracket
  have word : CodePoint.char ')' ∉ ("title=" : Text) := by decide
  have free : ¬("defval" : Text) <:+: row.titleFront ++ .char '\'' :: x := by
    have front : CodePoint.char 'd' ∉ row.titleFront := row.notMem_titleFront (by decide) (by decide)
    refine not_infix_append_cons (by decide) (not_infix_of_notMem (by decide) front) fun inside => fits ?_
    rw [split]
    exact inside.trans (List.prefix_append _ _).isInfix
  obtain ⟨more, whole⟩ : ∃ more, row.namedInner ++ .char ')' :: rest =
      (row.titleFront ++ .char '\'' :: x) ++ .char ')' :: more := by
    exact ⟨_, by simp only [namedInner, quotedTitle, split, List.append_assoc, List.cons_append]; rfl⟩
  rw [whole, lastBefore_append_of_silent, lastBefore_cons_of_stop (by decide)]
  · exact default_eq_none (by decide) more
  · intro c member
    rw [decide_eq_false_iff_not]
    rintro rfl
    simp [row.notMem_titleFront (by decide) word, first] at member
  · intro v suffix _
    exact default_silent (fun inside => free (inside.trans suffix.isInfix)) (by decide)

/-- Otherwise the default value is found behind the title. -/
theorem lastBefore_shown (noBracket : CodePoint.char ')' ∉ row.title) :
    lastBefore (· = ')') (default scanner) (row.namedInner ++ .char ')' :: rest) =
      lastBefore (· = ')') (default scanner) (("defval" : Text) ++ (row.defaultValue ++ .char ')' :: rest)) := by
  have word : CodePoint.char ')' ∉ ("title=" : Text) := by decide
  have free : ¬("defval" : Text) <:+: row.titleFront ++ row.quotedTitle row.spacing.afterTitle.1 := by
    have front : CodePoint.char 'd' ∉ row.titleFront := row.notMem_titleFront (by decide) (by decide)
    have blank : CodePoint.char 'd' ∉ row.spacing.afterTitle.1 := Blanks.notMem (by decide)
    refine not_infix_append_cons (by decide) (not_infix_of_notMem (by decide) front) ?_
    exact not_infix_append_cons (by decide) fits (not_infix_of_notMem (by decide) blank)
  have whole : row.namedInner ++ .char ')' :: rest = (row.titleFront ++ row.quotedTitle row.spacing.afterTitle.1) ++
      ((.char ',' :: row.spacing.afterComma.1) ++ (("defval" : Text) ++ (row.defaultValue ++ .char ')' :: rest))) := by
    simp [namedInner, quotedTitle]
  rw [whole, lastBefore_append_of_silent, lastBefore_append_of_silent]
  · intro c member
    rw [decide_eq_false_iff_not]
    rintro rfl
    simp [Blanks.notMem (by decide : isBlank ')' = false)] at member
  · intro v suffix filled
    obtain ⟨d, v, rfl⟩ := List.exists_cons_of_ne_nil filled
    refine default_eq_none ?_ _
    rintro rfl
    have member := suffix.subset List.mem_cons_self
    simp [Blanks.notMem (by decide : isBlank 'd' = false)] at member
  · intro c member
    rw [decide_eq_false_iff_not]
    rintro rfl
    simp [quotedTitle, row.notMem_titleFront (by decide) word, noBracket,
      Blanks.notMem (by decide : isBlank ')' = false)] at member
  · intro v suffix _
    exact default_silent (fun inside => free (inside.trans suffix.isInfix)) (by decide)

end Title

end Row

section Named
variable (scanner : Scanner β) (name : Text)

theorem opens_of_named (t : Text) : named scanner name t ≠ none → opening name t ≠ none := opens_of_find

theorem named_read? (kind : Kind β) (row : Row) (rest : Text) (fits : ¬("defval" : Text) <:+: row.title) :
    (named kind.scanner name).read? (name ++ row.tail row.namedInner ++ rest) =
      if decide (CodePoint.char ')' ∉ row.title) then kind.begins row.value else none := by
  rw [named, read?_bind_of_some (opening_row row _ rest)]
  by_cases bracket : CodePoint.char ')' ∈ row.title
  · rw [read?, Row.lastBefore_hidden fits rest bracket, if_neg (by simp [bracket])]
    rfl
  · rw [read?, Row.lastBefore_shown fits rest bracket, ← read?, if_pos (by simp [bracket])]
    exact Row.lastBefore_defval kind row rest

end Named

def Style.named : Style where
  form := .named
  inner := Row.namedInner
  shows row := CodePoint.char ')' ∉ row.title
  fits row := ¬("defval" : Text) <:+: row.title
  quiet := Row.namedInner_isQuiet
  opens := opens_of_named
  reads kind name row rest fits := named_read? name kind row rest fits

/-! ### The engines -/

namespace Style
variable (style : Style) (rows : List Row)

def whole? (name : Text) : Option Nat :=
  (style.first rows name Constant.digits?).bind fun digits =>
    if digits.length ≤ maxDigits then some (digitsValue digits) else none

def wholeOr (name : Text) (default : Int) : Int := ((style.whole? rows name).map Int.ofNat).getD default

def decimal? (name : Text) : Option Decimal := (style.first rows name Constant.unsigned?).map NumberText.decimal

def flag? (name : Text) : Option Bool := style.first rows name Constant.flag?

variable {style rows} (fits : ∀ row ∈ rows, style.fits row) {name : Text} (known : IsIdent name)
include fits known

theorem whole?_script : style.form.whole? (style.script rows) name = style.whole? rows name := by
  have found : search (style.form.find Scanner.digits name) (style.script rows) =
      style.first rows name Constant.digits? := search_script known Kind.whole fits
  have read (digits : Text) : (Descriptor.whole? digits).toOption =
      if digits.length ≤ maxDigits then some (digitsValue digits) else none := by
    unfold Descriptor.whole?
    split
    · rw [if_neg (Nat.not_le.mpr ‹_›)]
      rfl
    · rw [if_pos (Nat.not_lt.mp ‹_›)]
      rfl
  simp only [InputForm.whole?, found, read]
  rfl

theorem wholeOr_script (default : Int) :
    style.form.wholeOr (style.script rows) name default = style.wholeOr rows name default := by
  rw [InputForm.wholeOr, whole?_script fits known, wholeOr]

theorem decimal?_script : style.form.decimal? (style.script rows) name = style.decimal? rows name := by
  have found : search (style.form.find points name) (style.script rows) =
      style.first rows name fun x => x.unsigned?.map NumberText.mantissa := search_script known Kind.decimal fits
  have mantissas : (style.first rows name fun x => x.unsigned?.map NumberText.mantissa) =
      (style.first rows name Constant.unsigned?).map NumberText.mantissa := by
    rw [first, first, List.map_findSome?]
    congr 1
    funext row
    dsimp only [Function.comp]
    split <;> rfl
  rw [InputForm.decimal?, found, mantissas, decimal?]
  cases style.first rows name Constant.unsigned? with
  | none => rfl
  | some n => exact n.ofText?_mantissa

theorem flag?_script : style.form.flag? (style.script rows) name = style.flag? rows name :=
  search_script known Kind.flag fits

end Style

end Input

open Input

/-- A parameter is read on the first line whose identifier ends in its name and whose constant begins with a value for
it: a whole number ends at a point and at a power of ten, a decimal at a power of ten. Where there is no such line it
keeps its default, and so it does where the number that is read first has too many digits. A default value by name is
not seen behind a title with a closing bracket. -/
theorem ofScript_of_rows (α : Type) [Arith α] (rows : List Row) :
    (LogisticConfig.ofScript (Style.leading.script rows) : LogisticConfig α) =
      { lookback := Style.leading.wholeOr rows "lookback" 2
        normalization := Style.leading.wholeOr rows "nlbk" 2
        learningRate := ((Style.leading.decimal? rows "lrate").map Decimal.value).getD 0.0009
        iterations := Style.leading.wholeOr rows "iterations" 1000
        holdingPeriod := Style.leading.wholeOr rows "holding_p" 1
        showCurves := (Style.leading.flag? rows "curves").getD false
        usePrice := (Style.leading.flag? rows "useprice").getD true } ∧
    RegressionConfig.ofScript (Style.leading.script rows) =
      { regressionLength := Style.leading.wholeOr rows "length" 14
        emaLength := Style.leading.wholeOr rows "emaLength" 20 } ∧
    ((∀ row ∈ rows, Style.named.fits row) →
      (BullBearConfig.ofScript? (Style.named.script rows) : Except ScriptError (BullBearConfig α)) = do
        let sigma ← match Style.named.whole? rows "sigma" with
          | none => .ok (.whole 6)
          | some n =>
            if Arith.isFinite (Arith.ofInt n : α) then .ok (.value (Arith.ofInt n))
            else .error (.invalid [{ place := [.field "sigma"], cause := .numberType }])
        return {
          window := Style.named.wholeOr rows "window" 10
          smooth := (Style.named.flag? rows "smooth").getD true
          smoothFactor := Style.named.wholeOr rows "smap" 5
          sigma }) := by
  have fits : ∀ row ∈ rows, Style.leading.fits row := fun _ _ => trivial
  have whole (name : Text) (known : IsIdent name) (default : Int) :
      InputForm.leading.wholeOr (Style.leading.script rows) name default = Style.leading.wholeOr rows name default :=
    Style.wholeOr_script fits known default
  refine ⟨?_, ?_, fun fits' => ?_⟩
  · have rate : InputForm.leading.decimal? (Style.leading.script rows) "lrate" = Style.leading.decimal? rows "lrate" :=
      Style.decimal?_script fits (by decide +kernel)
    have flag (name : Text) (known : IsIdent name) :
        InputForm.leading.flag? (Style.leading.script rows) name = Style.leading.flag? rows name :=
      Style.flag?_script fits known
    unfold LogisticConfig.ofScript
    simp only [whole "lookback" (by decide +kernel), whole "nlbk" (by decide +kernel),
      whole "iterations" (by decide +kernel), whole "holding_p" (by decide +kernel), rate,
      flag "curves" (by decide +kernel), flag "useprice" (by decide +kernel)]
  · unfold RegressionConfig.ofScript
    simp only [whole "length" (by decide +kernel), whole "emaLength" (by decide +kernel)]
  · have whole (name : Text) (known : IsIdent name) (default : Int) :
        InputForm.named.wholeOr (Style.named.script rows) name default = Style.named.wholeOr rows name default :=
      Style.wholeOr_script fits' known default
    have sigma : InputForm.named.whole? (Style.named.script rows) "sigma" = Style.named.whole? rows "sigma" :=
      Style.whole?_script fits' (by decide +kernel)
    have smooth : InputForm.named.flag? (Style.named.script rows) "smooth" = Style.named.flag? rows "smooth" :=
      Style.flag?_script fits' (by decide +kernel)
    unfold BullBearConfig.ofScript?
    simp only [sigma, smooth, whole "window" (by decide +kernel), whole "smap" (by decide +kernel)]
    cases Style.named.whole? rows "sigma" <;> rfl

/-- A longer identifier is read as if it were its ending, a number as far as its power, and a span not at all since
there is a bracket in its title. -/
theorem ofScript_of_bracketed_rows :
    let size : Row := {
      ident := "my_window", named := by decide +kernel, title := "Size", quiet := by decide, spacing := .wide
      value := .number { whole := ⟨"2", by decide⟩, power := some ⟨false, .none, ⟨"3", by decide⟩, by decide⟩,
                         filled := by decide } }
    let span : Row := {
      ident := "sigma", named := by decide +kernel, title := "Width (bars)", quiet := by decide, spacing := .wide
      value := .number { whole := ⟨"4", by decide⟩, filled := by decide } }
    (∀ row ∈ [size, span], Style.named.fits row) ∧
    Style.named.script [size, span] =
      "my_window = input(title='Size', defval=2e3)\nsigma = input(title='Width (bars)', defval=4)" ∧
    BullBearConfig.ofScript? (Style.named.script [size, span]) =
      .ok { window := 2, smooth := true, smoothFactor := 5, sigma := (.whole 6 : Span Float) } := by
  intro size span
  have fits : ∀ row ∈ [size, span], Style.named.fits row := by
    show ∀ row ∈ [size, span], ¬("defval" : Text) <:+: row.title
    decide
  refine ⟨fits, by decide +kernel, ?_⟩
  rw [(ofScript_of_rows Float [size, span]).2.2 fits]
  decide +kernel

/-- Neither of two parameters is assigned a whole number, and both are read. -/
theorem ofScript_maxlength :
    let longest : Row := {
      ident := "maxlength", named := by decide +kernel, title := "Longest", quiet := by decide, spacing := .wide
      value := .number { whole := ⟨"3", by decide⟩, filled := by decide } }
    let average : Row := {
      ident := "emaLength", named := by decide +kernel, title := "Average", quiet := by decide, spacing := .wide
      value := .number { whole := ⟨"2", by decide⟩, fraction := some ⟨"5", by decide⟩, filled := by decide } }
    Style.leading.script [longest, average] =
      "maxlength = input(3, 'Longest')\nemaLength = input(2.5, 'Average')" ∧
    RegressionConfig.ofScript (Style.leading.script [longest, average]) = { regressionLength := 3, emaLength := 2 } :=
  ⟨by decide +kernel, by decide +kernel⟩

end ChartOverlay
