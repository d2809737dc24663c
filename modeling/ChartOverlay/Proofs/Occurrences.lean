import ChartOverlay.Proofs.Descriptors
import Mathlib

/-!
# Occurrences

A search reads what stands anywhere in a text. So what it finds depends on where a word occurs: `search_eq_none`
and `search_eq_some` reduce a search to the places where the scanner reads anything, and
`eq_of_occursAfter_append` to the single place of a word whose first letter does not come back in it.
-/

namespace ChartOverlay

/-! ### Places of a word -/

/-- A word stands in a text right after its front. -/
def OccursAfter (word front t : Text) : Prop := front ++ word <+: t

section Occurrence
variable {word front a t : Text} {c : CodePoint}

theorem OccursAfter.infix (h : OccursAfter word front t) : word <:+: t := by
  obtain ⟨rest, rfl⟩ := h
  exact ⟨front, rest, rfl⟩

/-- A word stands on one side of what is no letter of it. -/
theorem OccursAfter.split (h : OccursAfter word front (a ++ c :: t)) (foreign : c ∉ word) :
    OccursAfter word front a ∨ ∃ front', front = a ++ c :: front' ∧ OccursAfter word front' t := by
  obtain ⟨rest, h⟩ := h
  -- the word ends before the code point, starts behind it, or has it as a letter
  rcases List.append_eq_append_iff.mp h with ⟨x, inside, -⟩ | ⟨x, crossing, after⟩
  · exact Or.inl ⟨x, inside.symm⟩
  rcases x with _ | ⟨d, x⟩
  · exact Or.inl ⟨[], by simpa using crossing⟩
  obtain ⟨rfl, rfl⟩ := List.cons.inj after
  rcases List.append_eq_append_iff.mp crossing with ⟨y, -, letters⟩ | ⟨y, rfl, letters⟩
  · exact absurd (letters ▸ by simp) foreign
  rcases y with _ | ⟨d, y⟩
  · exact absurd (letters.trans (List.nil_append word) ▸ List.mem_cons_self) foreign
  obtain ⟨rfl, rfl⟩ := List.cons.inj letters
  exact Or.inr ⟨y, rfl, rest, by simp⟩

/-- A word does not start inside a text that lacks its first letter. -/
theorem OccursAfter.of_append (h : OccursAfter (c :: word) front (a ++ t)) (lacks : c ∉ a) :
    ∃ front', front = a ++ front' ∧ OccursAfter (c :: word) front' t := by
  induction a generalizing front with
  | nil => exact ⟨front, rfl, h⟩
  | cons d a ih =>
    obtain ⟨rest, h⟩ := h
    rcases front with _ | ⟨d', front⟩
    · exact absurd (List.cons.inj h).1 fun same => lacks (by simp [same])
    · obtain ⟨rfl, tail⟩ := List.cons.inj h
      obtain ⟨front', rfl, later⟩ := ih ⟨rest, tail⟩ fun member => lacks (List.mem_cons_of_mem _ member)
      exact ⟨front', rfl, later⟩

/-- A word stands in one place only between texts without it. -/
theorem eq_of_occursAfter_append (h : OccursAfter (c :: word) front (a ++ (c :: word ++ t))) (single : c ∉ word)
    (lacks : c ∉ a) (free : ¬c :: word <:+: t) : front = a := by
  obtain ⟨front, rfl, at_word⟩ := h.of_append lacks
  rcases front with _ | ⟨d, front⟩
  · exact List.append_nil a
  · obtain ⟨rest, same⟩ := at_word
    obtain ⟨-, tail⟩ := List.cons.inj same
    obtain ⟨front', -, later⟩ := OccursAfter.of_append ⟨rest, tail⟩ single
    exact absurd later.infix free

/-- The last place of a code point parts a text in one way only. -/
theorem eq_of_append_cons {s s' t t' : Text} (h : s ++ c :: t = s' ++ c :: t') (last : c ∉ t) (last' : c ∉ t') :
    s = s' := by
  rcases List.append_eq_append_iff.mp h with ⟨x, rfl, after⟩ | ⟨x, rfl, after⟩
  · rcases x with _ | ⟨d, x⟩
    · exact (List.append_nil s).symm
    · exact absurd ((List.cons.inj after).2 ▸ by simp) last
  · rcases x with _ | ⟨d, x⟩
    · exact List.append_nil s'
    · exact absurd ((List.cons.inj after).2 ▸ by simp) last'

theorem not_infix_of_notMem (member : c ∈ word) (lacks : c ∉ t) : ¬word <:+: t :=
  fun occurs => lacks (occurs.subset member)

theorem not_infix_append_cons (foreign : c ∉ word) (left : ¬word <:+: a) (right : ¬word <:+: t) :
    ¬word <:+: a ++ c :: t := by
  rintro ⟨front, rest, h⟩
  rcases OccursAfter.split ⟨rest, h⟩ foreign with before | ⟨_, _, after⟩
  · exact left before.infix
  · exact right after.infix

end Occurrence

/-! ### Blanks -/

abbrev Blanks := { t : Text // ∀ c ∈ t, isBlank c = true }

theorem Blanks.notMem {b : Blanks} {c : CodePoint} (visible : isBlank c = false) : c ∉ b.1 := by
  intro member
  rw [b.2 c member] at visible
  cases visible

/-- A text whose last code point is no blank. -/
def EndsVisibly (t : Text) : Prop := ∃ c ∈ t.getLast?, isBlank c = false

instance (t : Text) : Decidable (EndsVisibly t) := inferInstanceAs (Decidable (∃ c ∈ t.getLast?, _))

theorem EndsVisibly.append {t : Text} (h : EndsVisibly t) (a : Text) : EndsVisibly (a ++ t) := by
  obtain ⟨c, last, visible⟩ := h
  exact ⟨c, by simp [List.getLast?_append, Option.mem_def.mp last], visible⟩

/-- The blanks at the end of a text are told apart from what is before them. -/
theorem eq_of_append_blanks {s t : Text} {b b' : Blanks} (first : EndsVisibly s) (second : EndsVisibly t)
    (h : s ++ b.1 = t ++ b'.1) : s = t := by
  have trimmed {s : Text} {b : Blanks} (ends : EndsVisibly s) : (s ++ b.1).rdropWhile isBlank = s := by
    obtain ⟨c, last, visible⟩ := ends
    have blank : ∀ c ∈ b.1.reverse, isBlank c = true := fun c member => b.2 c (List.mem_reverse.mp member)
    obtain ⟨u, rfl⟩ := List.getLast?_eq_some_iff.mp last
    rw [List.rdropWhile, List.reverse_append, List.dropWhile_append_of_pos blank, List.reverse_append,
      List.reverse_singleton, List.singleton_append, List.dropWhile_cons_of_neg (by simp [visible])]
    simp
  rw [← trimmed first (b := b), h, trimmed second]

/-! ### What scanners read -/

namespace Scanner
variable {β : Type} {p : Scanner β} {t rest : Text}

theorem bind_of_some {γ : Type} {b : β} {f : β → Scanner γ} (h : p t = some (b, rest)) : (p >>= f) t = f b rest := by
  simp [bind, StateT.bind, h]

theorem text_some_iff {word : Text} {u : Unit} : text word t = some (u, rest) ↔ word ++ rest = t := by
  simp [text]

theorem blanks_append (b : Blanks) {c : CodePoint} (visible : isBlank c = false) (t : Text) :
    blanks (b.1 ++ c :: t) = some ((), c :: t) := by
  show some ((), (b.1 ++ c :: t).dropWhile isBlank) = _
  rw [List.dropWhile_append_of_pos b.2, List.dropWhile_cons_of_neg (by simp [visible])]

theorem blanks_some {u : Unit} (h : blanks t = some (u, rest)) : ∃ b : Blanks, t = b.1 ++ rest := by
  obtain rfl : t.dropWhile isBlank = rest := congrArg Prod.snd (Option.some.inj h)
  exact ⟨⟨t.takeWhile isBlank, fun c member => List.mem_takeWhile_imp member⟩, by simp⟩

theorem discard_eq (p : Scanner β) (t : Text) : (discard p : Scanner Unit) t = (p t).map fun r => ((), r.2) := by
  cases read : p t <;> simp [discard, Functor.discard, Functor.mapConst, StateT.map, read]

theorem discard_point_some {accepts : CodePoint → Bool} {u : Unit}
    (h : (discard (point accepts) : Scanner Unit) t = some (u, rest)) :
    ∃ c, accepts c = true ∧ t = c :: rest := by
  rw [discard_eq] at h
  obtain ⟨⟨c, middle⟩, read, same⟩ := Option.map_eq_some_iff.mp h
  cases same
  have accepted := point_some read
  rcases t with _ | ⟨d, t⟩
  · cases read
  · rw [point] at read
    split at read
    · cases read
      exact ⟨c, accepted, rfl⟩
    · cases read

theorem orElse_of_some {q : Scanner β} {found : β × Text} (h : p t = some found) : (p <|> q) t = some found := by
  simp [HOrElse.hOrElse, OrElse.orElse, Alternative.orElse, StateT.orElse, h]

theorem many_append {accepts : CodePoint → Bool} (all : ∀ c ∈ t, accepts c = true)
    (stops : ∀ c ∈ rest.head?, accepts c = false) : many accepts (t ++ rest) = some (t, rest) := by
  rw [many, List.takeWhile_append_of_pos all, List.dropWhile_append_of_pos all]
  rcases rest with _ | ⟨c, rest⟩
  · simp
  · have other := stops c rfl
    simp [other]

theorem search_of_some {v : β} (reads : p t = some (v, rest)) : search p t = some v := by
  cases t <;> simp [search, read?, reads]

/-- A search that reads at no place of a text finds nothing. -/
theorem search_eq_none (silent : ∀ front t', t = front ++ t' → p t' = none) : search p t = none := by
  induction t with
  | nil => simp [search, read?, silent [] [] rfl]
  | cons c t ih =>
    have later := ih fun front t' split => silent (c :: front) t' (by rw [split]; rfl)
    simp [search, read?, silent [] (c :: t) rfl, later]

/-- A search finds what is read at some place if all places agree. -/
theorem search_eq_some {v : β} (agree : ∀ front t' u rest, t = front ++ t' → p t' = some (u, rest) → u = v)
    {front t' : Text} (split : t = front ++ t') (reads : p t' ≠ none) : search p t = some v := by
  induction front generalizing t with
  | nil =>
    obtain ⟨⟨u, rest⟩, reads⟩ := Option.ne_none_iff_exists'.mp reads
    obtain rfl := agree [] t' u rest split reads
    rw [split]
    exact search_of_some reads
  | cons c front ih =>
    subst split
    cases first : p (c :: (front ++ t')) with
    | some read =>
      obtain rfl := agree [] _ read.1 read.2 rfl first
      exact search_of_some first
    | none =>
      have later := ih (t := front ++ t') (fun front' t'' u rest split => agree (c :: front') t'' u rest
        (by rw [List.cons_append, split]; rfl)) rfl
      simpa [search, read?, first] using later

end Scanner

end ChartOverlay
