import ChartOverlay.Proofs.DoubleNearest
import ChartOverlay.Proofs.Legibility
import ChartOverlay.Proofs.Occurrences

/-!
# Scripts of assignments

A parameter that is written into a script is found in it, in whatever order and between whatever other lines
(`search_of_assigned`), and one that is not written is not found (`search_of_absent`). What carries the proofs is that
the word before the bracket occurs in assignments only (`exists_assignment_of_occursAfter`), and that no name of a
parameter ends in another one.
-/

namespace ChartOverlay

namespace Input

/-! ### Writing assignments -/

/-- What is in quotes in a call. -/
structure Title where
  text : Text
  call : ¬("input" : Text) <:+: text
  bracket : (')' : CodePoint) ∉ text

/-- The text of a value. It lacks the first letters of the words that are searched for. -/
structure Literal where
  text : Text
  visible : ∃ c t, text = c :: t ∧ isBlank c = false
  call : ('i' : CodePoint) ∉ text
  default : ('d' : CodePoint) ∉ text

/-- The free choices in writing one assignment: its title and the blanks in it. -/
structure Layout where
  title : Title
  indent : Blanks := ⟨[], nofun⟩
  beforeEquals : Blanks := ⟨[], nofun⟩
  afterEquals : Blanks := ⟨[], nofun⟩
  beforeBracket : Blanks := ⟨[], nofun⟩
  afterBracket : Blanks := ⟨[], nofun⟩
  beforeTitle : Blanks := ⟨[], nofun⟩
  afterTitle : Blanks := ⟨[], nofun⟩
  afterComma : Blanks := ⟨[], nofun⟩
  beforeDefault : Blanks := ⟨[], nofun⟩
  afterDefault : Blanks := ⟨[], nofun⟩
  afterLiteral : Blanks := ⟨[], nofun⟩

structure Assignment where
  name : Text
  literal : Literal

/-- A line of a script: an assignment, or something without a call. -/
inductive ScriptLine
  | assignment (a : Assignment) (layout : Layout)
  | other (t : Text) (free : ¬("input" : Text) <:+: t)

def ScriptLine.assignment? : ScriptLine → Option Assignment
  | assignment a _ => some a
  | other _ _ => none

def assignments (lines : List ScriptLine) : List Assignment := lines.filterMap ScriptLine.assignment?

/-- What may follow a literal. -/
def Ends (c : CodePoint) : Prop := isBlank c = true ∨ c = ',' ∨ c = ')'

/-- A scanner reads a literal as a value, up to its end. -/
def Reads {β : Type} (scanner : Scanner β) (literal : Text) (v : β) : Prop :=
  ∀ c rest, Ends c → scanner (literal ++ c :: rest) = some (v, c :: rest)

def written (name before after call : Text) : Text :=
  name ++ (before ++ .char '=' :: (after ++ (("input" : Text) ++ call)))

/-! ### Reading one assignment -/

theorem call_eq : ("input" : Text) = .char 'i' :: ("nput" : Text) := by decide

theorem opening_some {name t rest : Text} {u : Unit} (h : opening name t = some (u, rest)) :
    ∃ before after inner : Blanks, t = written name before.1 after.1 (inner.1 ++ .char '(' :: rest) := by
  obtain ⟨_, _, named, h⟩ := Scanner.bind_some h
  obtain ⟨_, _, first, h⟩ := Scanner.bind_some h
  obtain ⟨_, _, equals, h⟩ := Scanner.bind_some h
  obtain ⟨_, _, second, h⟩ := Scanner.bind_some h
  obtain ⟨_, _, call, h⟩ := Scanner.bind_some h
  obtain ⟨_, _, third, bracket⟩ := Scanner.bind_some h
  obtain rfl := Scanner.text_some_iff.mp named
  obtain ⟨before, rfl⟩ := Scanner.blanks_some first
  obtain ⟨c, same, rfl⟩ := Scanner.discard_point_some equals
  obtain rfl : c = '=' := by simpa using same
  obtain ⟨after, rfl⟩ := Scanner.blanks_some second
  obtain rfl := Scanner.text_some_iff.mp call
  obtain ⟨inner, rfl⟩ := Scanner.blanks_some third
  obtain ⟨c, same, rfl⟩ := Scanner.discard_point_some bracket
  obtain rfl : c = '(' := by simpa using same
  exact ⟨before, after, inner, rfl⟩

theorem text_append (w rest : Text) : Scanner.text w (w ++ rest) = some ((), rest) :=
  Scanner.text_some_iff.mpr rfl

theorem discard_point_cons (c : CodePoint) (rest : Text) :
    (discard (Scanner.point (· = c)) : Scanner Unit) (c :: rest) = some ((), rest) := by
  simp [Scanner.discard_eq, Scanner.point]

theorem blanks_call (b : Blanks) (rest : Text) :
    Scanner.blanks (b.1 ++ (("input" : Text) ++ rest)) = some ((), ("input" : Text) ++ rest) := by
  rw [call_eq, List.cons_append]
  exact Scanner.blanks_append b (by decide) _

theorem opening_written (name : Text) (before after inner : Blanks) (rest : Text) :
    opening name (written name before.1 after.1 (inner.1 ++ .char '(' :: rest)) = some ((), rest) := by
  rw [opening, written, Scanner.bind_of_some (text_append name _),
    Scanner.bind_of_some (Scanner.blanks_append before (by decide) _), Scanner.bind_of_some (discard_point_cons _ _),
    Scanner.bind_of_some (blanks_call after _), Scanner.bind_of_some (text_append _ _),
    Scanner.bind_of_some (Scanner.blanks_append inner (by decide) _)]
  exact discard_point_cons _ _

/-! ### The two forms -/

def quoted (title : Title) (rest : Text) : Text := .char '\'' :: (title.text ++ .char '\'' :: rest)

def leadingCall (layout : Layout) (literal : Literal) : Text :=
  layout.beforeBracket.1 ++ .char '(' :: ((layout.afterBracket.1 ++ (literal.text ++ layout.afterLiteral.1)) ++
    .char ',' :: (layout.afterComma.1 ++ quoted layout.title (layout.afterTitle.1 ++ [.char ')'])))

def namedCall (layout : Layout) (literal : Literal) : Text :=
  layout.beforeBracket.1 ++ .char '(' :: ((layout.afterBracket.1 ++ (("title" : Text) ++ layout.beforeTitle.1)) ++
    .char '=' :: (layout.afterTitle.1 ++ quoted layout.title (.char ',' ::
      ((layout.afterComma.1 ++ (("defval" : Text) ++ layout.beforeDefault.1)) ++
        .char '=' :: ((layout.afterDefault.1 ++ (literal.text ++ layout.afterLiteral.1)) ++ [.char ')'])))))

theorem not_call_of_blanks (b : Blanks) : ¬("input" : Text) <:+: b.1 :=
  not_infix_of_notMem (by decide : CodePoint.char 'i' ∈ ("input" : Text)) (b.notMem (by decide))

theorem not_call_of_literal (b b' : Blanks) (literal : Literal) :
    ¬("input" : Text) <:+: b.1 ++ (literal.text ++ b'.1) := by
  apply not_infix_of_notMem (by decide : CodePoint.char 'i' ∈ ("input" : Text))
  simp [b.notMem (by decide : isBlank 'i' = false), b'.notMem (by decide : isBlank 'i' = false), literal.call]

theorem not_call_of_quoted (b : Blanks) (title : Title) {rest : Text} (free : ¬("input" : Text) <:+: rest) :
    ¬("input" : Text) <:+: b.1 ++ quoted title rest :=
  not_infix_append_cons (by decide) (not_call_of_blanks b) (not_infix_append_cons (by decide) title.call free)

theorem not_call_of_leadingCall (layout : Layout) (literal : Literal) :
    ¬("input" : Text) <:+: leadingCall layout literal := by
  refine not_infix_append_cons (by decide) (not_call_of_blanks _) ?_
  refine not_infix_append_cons (by decide) (not_call_of_literal _ _ _) (not_call_of_quoted _ _ ?_)
  exact not_infix_append_cons (by decide) (not_call_of_blanks _) (by decide)

theorem not_call_of_namedCall (layout : Layout) (literal : Literal) :
    ¬("input" : Text) <:+: namedCall layout literal := by
  -- of the letters of the call, the words lack the u
  have word {w : Text} (b b' : Blanks) (lacks : CodePoint.char 'u' ∉ w) :
      ¬("input" : Text) <:+: b.1 ++ (w ++ b'.1) := by
    apply not_infix_of_notMem (by decide : CodePoint.char 'u' ∈ ("input" : Text))
    simp [b.notMem (by decide : isBlank 'u' = false), b'.notMem (by decide : isBlank 'u' = false), lacks]
  refine not_infix_append_cons (by decide) (not_call_of_blanks _) ?_
  refine not_infix_append_cons (by decide) (word _ _ (by decide)) (not_call_of_quoted _ _ ?_)
  refine not_infix_append_cons (a := []) (by decide) (by decide) ?_
  refine not_infix_append_cons (by decide) (word _ _ (by decide)) ?_
  exact not_infix_append_cons (by decide) (not_call_of_literal _ _ _) (by decide)

section Forms
variable {β : Type} {scanner : Scanner β} {v : β}

/-- What is read after blanks, from a literal to whatever ends it. -/
theorem reads_literal {literal : Literal} (reads : Reads scanner literal.text v) (b b' : Blanks) {c : CodePoint}
    (stop : c = ',' ∨ c = ')') (rest : Text) :
    ∃ rest', (do Scanner.blanks; scanner : Scanner β) ((b.1 ++ (literal.text ++ b'.1)) ++ c :: rest) =
      some (v, rest') := by
  obtain ⟨d, t, text, visible⟩ := literal.visible
  have skipped (rest : Text) : Scanner.blanks (b.1 ++ (literal.text ++ rest)) = some ((), literal.text ++ rest) := by
    rw [text, List.cons_append]
    exact Scanner.blanks_append b visible _
  rw [List.append_assoc, List.append_assoc, Scanner.bind_of_some (skipped _)]
  rcases blanks : b'.1 with _ | ⟨e, b''⟩
  · exact ⟨_, reads _ _ (Or.inr stop)⟩
  · refine ⟨_, reads _ _ (Or.inl (b'.2 e ?_))⟩
    rw [blanks]
    exact List.mem_cons_self

theorem lastBefore_append {stop : CodePoint → Bool} {p : Scanner β} {a t : Text} {found : β × Text}
    (passes : ∀ c ∈ a, stop c = false) (later : lastBefore stop p t = some found) :
    lastBefore stop p (a ++ t) = some found := by
  induction a with
  | nil => exact later
  | cons c a ih =>
    rw [List.cons_append, lastBefore, passes c List.mem_cons_self,
      ih fun d member => passes d (List.mem_cons_of_mem c member)]
    rfl

theorem lastBefore_eq_none {stop : CodePoint → Bool} {p : Scanner β} {a : Text} {c : CodePoint} {rest : Text}
    (ends : stop c = true) (silent : ∀ d ∈ a ++ [c], ∀ t, p (d :: t) = none) :
    lastBefore stop p (a ++ c :: rest) = none := by
  induction a with
  | nil => simp [lastBefore, ends, silent c (by simp)]
  | cons d a ih =>
    have later := ih fun e member => silent e (List.mem_cons_of_mem d member)
    simp [lastBefore, later, silent d (by simp)]

theorem opens_of_find {name t : Text} {f : Unit → Scanner β} (h : (opening name >>= f) t ≠ none) :
    opening name t ≠ none := by
  intro nothing
  exact h (by simp [bind, StateT.bind, nothing])

theorem leading_reads {literal : Literal} (reads : Reads scanner literal.text v) (name : Text)
    (before after : Blanks) (layout : Layout) (rest : Text) :
    ∃ rest', leading scanner name (written name before.1 after.1 (leadingCall layout literal ++ rest)) =
      some (v, rest') := by
  rw [leadingCall, List.append_assoc, List.cons_append, List.append_assoc, List.cons_append, leading,
    Scanner.bind_of_some (opening_written _ _ _ _ _)]
  exact reads_literal reads _ _ (Or.inl rfl) _

theorem default_eq_none {c : CodePoint} (other : c ≠ 'd') (t : Text) : default scanner (c :: t) = none := by
  have word : ("defval" : Text) = .char 'd' :: ("efval" : Text) := by decide
  have nothing : Scanner.text "defval" (c :: t) = none := by
    rw [word, Scanner.text, List.isPrefixOf?]
    simp [Ne.symm other]
  simp [default, bind, StateT.bind, nothing]

/-- The last default value before the bracket is read, whatever the title is. -/
theorem lastBefore_default {literal : Literal} (reads : Reads scanner literal.text v) (b b' b'' : Blanks)
    (rest : Text) :
    ∃ rest', lastBefore (· = ')') (default scanner) (("defval" : Text) ++ (b.1 ++
      .char '=' :: ((b'.1 ++ (literal.text ++ b''.1)) ++ .char ')' :: rest))) = some (v, rest') := by
  have word (t : Text) : ("defval" : Text) ++ t = .char 'd' :: (("efval" : Text) ++ t) := rfl
  have lacks (b : Blanks) : CodePoint.char 'd' ∉ b.1 := b.notMem (by decide)
  have later : lastBefore (· = ')') (default scanner) (("efval" : Text) ++ (b.1 ++
      .char '=' :: ((b'.1 ++ (literal.text ++ b''.1)) ++ .char ')' :: rest))) = none := by
    have apart : ("efval" : Text) ++ (b.1 ++ .char '=' :: ((b'.1 ++ (literal.text ++ b''.1)) ++ .char ')' :: rest)) =
        (("efval" : Text) ++ (b.1 ++ .char '=' :: (b'.1 ++ (literal.text ++ b''.1)))) ++ .char ')' :: rest := by simp
    rw [apart]
    refine lastBefore_eq_none (by decide) fun c member t => default_eq_none ?_ t
    rintro rfl
    have letters : CodePoint.char 'd' ∉ ("efval" : Text) := by decide
    simp [letters, lacks, literal.default] at member
  obtain ⟨rest', found⟩ := reads_literal reads b' b'' (Or.inr rfl) rest
  refine ⟨rest', ?_⟩
  rw [word, lastBefore, later]
  rw [← word, default, Scanner.bind_of_some (text_append _ _),
    Scanner.bind_of_some (Scanner.blanks_append b (by decide) _), Scanner.bind_of_some (discard_point_cons _ _),
    found]
  rfl

theorem named_reads {literal : Literal} (reads : Reads scanner literal.text v) (name : Text)
    (before after : Blanks) (layout : Layout) (rest : Text) :
    ∃ rest', named scanner name (written name before.1 after.1 (namedCall layout literal ++ rest)) =
      some (v, rest') := by
  have lacks (b : Blanks) : CodePoint.char ')' ∉ b.1 := b.notMem (by decide)
  have word : CodePoint.char ')' ∉ ("title" : Text) := by decide
  obtain ⟨rest', found⟩ :=
    lastBefore_default reads layout.beforeDefault layout.afterDefault layout.afterLiteral rest
  refine ⟨rest', ?_⟩
  rw [namedCall, List.append_assoc, List.cons_append, named, Scanner.bind_of_some (opening_written _ _ _ _ _)]
  have front : ((layout.afterBracket.1 ++ (("title" : Text) ++ layout.beforeTitle.1)) ++
      .char '=' :: (layout.afterTitle.1 ++ quoted layout.title (.char ',' ::
        ((layout.afterComma.1 ++ (("defval" : Text) ++ layout.beforeDefault.1)) ++
          .char '=' :: ((layout.afterDefault.1 ++ (literal.text ++ layout.afterLiteral.1)) ++ [.char ')']))))) ++
      rest =
      ((layout.afterBracket.1 ++ (("title" : Text) ++ layout.beforeTitle.1)) ++
        .char '=' :: (layout.afterTitle.1 ++ quoted layout.title (.char ',' :: layout.afterComma.1))) ++
      (("defval" : Text) ++ (layout.beforeDefault.1 ++
        .char '=' :: ((layout.afterDefault.1 ++ (literal.text ++ layout.afterLiteral.1)) ++ .char ')' :: rest))) := by
    simp [quoted]
  rw [front]
  refine lastBefore_append (fun c member => ?_) found
  rw [decide_eq_false_iff_not]
  rintro rfl
  simp [quoted, lacks, word, layout.title.bracket] at member

end Forms

/-- A form of assignments together with the way to write them: after the word `input` comes a call. -/
structure Writing where
  form : InputForm
  call : Layout → Literal → Text
  free : ∀ layout literal, ¬("input" : Text) <:+: call layout literal
  opens : ∀ {β : Type} (scanner : Scanner β) (name t : Text), form.find scanner name t ≠ none → opening name t ≠ none
  reads : ∀ {β : Type} {scanner : Scanner β} {literal : Literal} {v : β}, Reads scanner literal.text v →
    ∀ (name : Text) (before after : Blanks) (layout : Layout) (rest : Text),
      ∃ rest', form.find scanner name (written name before.1 after.1 (call layout literal ++ rest)) = some (v, rest')

def Writing.leading : Writing where
  form := .leading
  call := leadingCall
  free := not_call_of_leadingCall
  opens _ _ _ := opens_of_find
  reads := leading_reads

def Writing.named : Writing where
  form := .named
  call := namedCall
  free := not_call_of_namedCall
  opens _ _ _ := opens_of_find
  reads := named_reads

/-! ### Scripts -/

namespace Writing
variable {w : Writing}

def line (w : Writing) : ScriptLine → Text
  | .assignment a layout =>
    layout.indent.1 ++ written a.name layout.beforeEquals.1 layout.afterEquals.1 (w.call layout a.literal)
  | .other t _ => t

def script (w : Writing) (lines : List ScriptLine) : Text := List.intercalate ['\n'] (lines.map w.line)

theorem script_cons (l l' : ScriptLine) (lines : List ScriptLine) :
    w.script (l :: l' :: lines) = w.line l ++ .char '\n' :: w.script (l' :: lines) :=
  List.intercalate_cons_cons.trans (by simp [script])

theorem script_singleton (l : ScriptLine) : w.script [l] = w.line l := List.intercalate_singleton

theorem line_infix {l : ScriptLine} {lines : List ScriptLine} (member : l ∈ lines) :
    w.line l <:+: w.script lines := by
  induction lines with
  | nil => cases member
  | cons first lines ih =>
    rcases lines with _ | ⟨second, lines⟩
    · obtain rfl := List.mem_singleton.mp member
      rw [script_singleton]
    · rw [script_cons]
      rcases List.mem_cons.mp member with rfl | later
      · exact (List.prefix_append _ _).isInfix
      · exact (ih later).trans ((List.suffix_cons _ _).trans (List.suffix_append _ _)).isInfix

end Writing

/-- Names that are told apart in a script: each lacks a letter of the word in a call, ends visibly, and is not the end
of another one. -/
structure Separate (names : List Text) : Prop where
  distinct : names.Nodup
  lacks : ∀ name ∈ names, ∃ c ∈ ("input" : Text), c ∉ name
  visible : ∀ name ∈ names, EndsVisibly name
  apart : ∀ name ∈ names, ∀ name' ∈ names, name <:+ name' → name = name'

section Script
variable {w : Writing} {names : List Text} {lines : List ScriptLine} {front t : Text}

/-- Inside a line the word of a call occurs only before the bracket of an assignment. -/
theorem occursAfter_line {l : ScriptLine} (h : OccursAfter "input" front (w.line l))
    (lacks : ∀ a ∈ l.assignment?, ∃ c ∈ ("input" : Text), c ∉ a.name) :
    ∃ a layout, l = .assignment a layout ∧
      front = (layout.indent.1 ++ (a.name ++ layout.beforeEquals.1)) ++ .char '=' :: layout.afterEquals.1 := by
  cases l with
  | other t free => exact absurd h.infix free
  | assignment a layout =>
    refine ⟨a, layout, rfl, ?_⟩
    have apart : w.line (.assignment a layout) = (layout.indent.1 ++ (a.name ++ layout.beforeEquals.1)) ++
        .char '=' :: (layout.afterEquals.1 ++ (("input" : Text) ++ w.call layout a.literal)) := by
      simp [Writing.line, written]
    rw [apart] at h
    rcases h.split (by decide) with named | ⟨front', rfl, inside⟩
    · obtain ⟨c, member, missing⟩ := lacks a rfl
      have visible : ∀ c ∈ ("input" : Text), isBlank c = false := by decide
      refine absurd named.infix (not_infix_of_notMem member ?_)
      simp [Blanks.notMem (visible c member), missing]
    · have free := w.free layout a.literal
      rw [call_eq] at inside free
      rw [eq_of_occursAfter_append inside (by decide) (Blanks.notMem (by decide)) free]

theorem line_eq (a : Assignment) (layout : Layout) : w.line (.assignment a layout) =
    ((layout.indent.1 ++ (a.name ++ layout.beforeEquals.1)) ++ .char '=' :: layout.afterEquals.1) ++
      (("input" : Text) ++ w.call layout a.literal) := by
  simp [Writing.line, written]

/-- In a script the word of a call occurs only in its assignments. -/
theorem exists_assignment_of_occursAfter (h : OccursAfter "input" front (w.script lines))
    (lacks : ∀ a ∈ assignments lines, ∃ c ∈ ("input" : Text), c ∉ a.name) :
    ∃ a layout before rest, ScriptLine.assignment a layout ∈ lines ∧
      front = before ++ ((layout.indent.1 ++ (a.name ++ layout.beforeEquals.1)) ++
        .char '=' :: layout.afterEquals.1) ∧
      w.script lines = front ++ (("input" : Text) ++ (w.call layout a.literal ++ rest)) := by
  -- the word has no line break in it, so it lies in the first line or behind it
  induction lines generalizing front with
  | nil => exact absurd h.infix (by decide : ¬("input" : Text) <:+: [])
  | cons l lines ih =>
    have first : ∀ a ∈ l.assignment?, ∃ c ∈ ("input" : Text), c ∉ a.name := by
      intro a same
      exact lacks a (List.mem_filterMap.mpr ⟨l, List.mem_cons_self, same⟩)
    rcases lines with _ | ⟨l', lines⟩
    · rw [Writing.script_singleton] at h ⊢
      obtain ⟨a, layout, rfl, rfl⟩ := occursAfter_line h first
      exact ⟨a, layout, [], [], List.mem_cons_self, rfl, by rw [line_eq]; simp⟩
    rw [Writing.script_cons] at h ⊢
    rcases h.split (by decide) with inside | ⟨front', rfl, later⟩
    · obtain ⟨a, layout, rfl, rfl⟩ := occursAfter_line inside first
      exact ⟨a, layout, [], .char '\n' :: w.script (l' :: lines), List.mem_cons_self, rfl, by rw [line_eq]; simp⟩
    · obtain ⟨a, layout, before, rest, member, rfl, split⟩ := ih later fun a member =>
        lacks a (List.mem_filterMap.mpr (by
          obtain ⟨l'', inside, same⟩ := List.mem_filterMap.mp member
          exact ⟨l'', List.mem_cons_of_mem l inside, same⟩))
      exact ⟨a, layout, w.line l ++ .char '\n' :: before, rest, List.mem_cons_of_mem l member, by simp,
        by rw [split]; simp⟩

theorem mem_assignments {a : Assignment} :
    a ∈ assignments lines ↔ ∃ layout, ScriptLine.assignment a layout ∈ lines := by
  rw [assignments, List.mem_filterMap]
  constructor
  · rintro ⟨_ | _, member, same⟩
    · cases same
      exact ⟨_, member⟩
    · cases same
  · rintro ⟨layout, member⟩
    exact ⟨_, member, rfl⟩

/-- An opening is read only where an assignment to its name stands. -/
theorem exists_assignment_of_opening {name : Text} (separate : Separate names) (known : name ∈ names)
    (within : ∀ a ∈ assignments lines, a.name ∈ names) (split : w.script lines = front ++ t)
    (opens : opening name t ≠ none) :
    ∃ a layout, ScriptLine.assignment a layout ∈ lines ∧ a.name = name ∧ ∃ (before after : Blanks) (rest : Text),
      t = written name before.1 after.1 (w.call layout a.literal ++ rest) := by
  obtain ⟨⟨_, rest⟩, reads⟩ := Option.ne_none_iff_exists'.mp opens
  obtain ⟨before, after, inner, rfl⟩ := opening_some reads
  have place : w.script lines = (front ++ (name ++ (before.1 ++ .char '=' :: after.1))) ++
      (("input" : Text) ++ (inner.1 ++ .char '(' :: rest)) := by
    rw [split]
    simp [written]
  have occurs : OccursAfter "input" (front ++ (name ++ (before.1 ++ .char '=' :: after.1))) (w.script lines) :=
    ⟨inner.1 ++ .char '(' :: rest, by rw [place]; simp⟩
  obtain ⟨a, layout, skipped, rest', member, same, whole⟩ :=
    exists_assignment_of_occursAfter occurs fun a member => separate.lacks _ (within a member)
  -- the same place seen from both sides: the texts before the equals sign agree, and so the names are one
  have blank (b : Blanks) : CodePoint.char '=' ∉ b.1 := b.notMem (by decide)
  have sides : (front ++ name) ++ before.1 = (skipped ++ (layout.indent.1 ++ a.name)) ++ layout.beforeEquals.1 := by
    have marked : ((front ++ name) ++ before.1) ++ .char '=' :: after.1 =
        ((skipped ++ (layout.indent.1 ++ a.name)) ++ layout.beforeEquals.1) ++ .char '=' :: layout.afterEquals.1 := by
      simpa using same
    exact eq_of_append_cons marked (blank _) (blank _)
  have assigned := within a (mem_assignments.mpr ⟨layout, member⟩)
  have names : front ++ name = skipped ++ (layout.indent.1 ++ a.name) :=
    eq_of_append_blanks ((separate.visible name known).append _) (((separate.visible _ assigned).append _).append _)
      sides
  have equal : a.name = name := by
    have ending : a.name <:+ front ++ name := by
      rw [names, ← List.append_assoc]
      exact List.suffix_append _ _
    rcases List.suffix_or_suffix_of_suffix (List.suffix_append front name) ending with shorter | longer
    · exact (separate.apart _ known _ assigned shorter).symm
    · exact separate.apart _ assigned _ known longer
  refine ⟨a, layout, member, equal, before, after, rest', ?_⟩
  have rests := place.symm.trans whole
  have calls := List.append_cancel_left rests
  rw [written, List.append_cancel_left calls, written]

variable {β : Type} {scanner : Scanner β} {v : β}

/-- A parameter that no line assigns is not found. -/
theorem search_of_absent {name : Text} (separate : Separate names) (known : name ∈ names)
    (within : ∀ a ∈ assignments lines, a.name ∈ names) (absent : ∀ a ∈ assignments lines, a.name ≠ name) :
    Scanner.search (w.form.find scanner name) (w.script lines) = none := by
  refine Scanner.search_eq_none fun front t split => ?_
  by_contra found
  obtain ⟨a, layout, member, equal, -⟩ :=
    exists_assignment_of_opening separate known within split (w.opens scanner name t found)
  exact absent a (mem_assignments.mpr ⟨layout, member⟩) equal

/-- A parameter is found where it is assigned. -/
theorem search_of_assigned {a : Assignment} (separate : Separate names)
    (within : ∀ a ∈ assignments lines, a.name ∈ names) (member : a ∈ assignments lines)
    (single : ∀ a' ∈ assignments lines, a'.name = a.name → a' = a) (reads : Reads scanner a.literal.text v) :
    Scanner.search (w.form.find scanner a.name) (w.script lines) = some v := by
  obtain ⟨layout, present⟩ := mem_assignments.mp member
  obtain ⟨before, after, split⟩ := Writing.line_infix (w := w) present
  have place : w.script lines = (before ++ layout.indent.1) ++
      written a.name layout.beforeEquals.1 layout.afterEquals.1 (w.call layout a.literal ++ after) := by
    rw [← split]
    simp [Writing.line, written]
  refine Scanner.search_eq_some ?_ place ?_
  · intro front t u rest split found
    have opens := w.opens scanner a.name t (by simp [found])
    obtain ⟨a', layout', present', equal, before', after', rest', rfl⟩ :=
      exists_assignment_of_opening separate (within a member) within split opens
    obtain rfl := single a' (mem_assignments.mpr ⟨layout', present'⟩) equal
    obtain ⟨rest'', read⟩ := w.reads reads a'.name before' after' layout' rest'
    rw [read] at found
    exact (congrArg Prod.fst (Option.some.inj found)).symm
  · obtain ⟨rest, read⟩ := w.reads reads a.name layout.beforeEquals layout.afterEquals layout after
    simp [read]

end Script

end Input

end ChartOverlay
