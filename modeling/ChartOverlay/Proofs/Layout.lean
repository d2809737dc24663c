import ChartOverlay.Proofs.Occurrences

/-!
# Layout of scripts

A script is read row by row, so what it asks for does not hang on how it is laid out. `lines_join` gives the lines
that say something; each change of layout leaves them alone (`Relaid.lines_eq`), and the lines of two scripts in a row
are those of the one and then those of the other.
-/

namespace ChartOverlay

section Strip
variable {b t : Text}

theorem strip_blanks_append (blank : ∀ c ∈ b, isBlank c = true) : strip (b ++ t) = strip t := by
  unfold strip stripBy
  rw [List.dropWhile_append_of_pos blank]

theorem strip_append_blanks (blank : ∀ c ∈ b, isBlank c = true) : strip (t ++ b) = strip t := by
  have back : ∀ c ∈ b.reverse, isBlank c = true := by
    intro c member
    exact blank c (List.mem_reverse.mp member)
  unfold strip stripBy
  rw [List.dropWhile_append]
  cases front : t.dropWhile isBlank with
  | nil => rw [List.isEmpty_nil, if_pos rfl, List.dropWhile_eq_nil_iff.mpr blank]
  | cons c rest =>
    rw [List.isEmpty_cons, if_neg Bool.false_ne_true, List.reverse_append, List.dropWhile_append_of_pos back]

/-- Two visible code points at the front of a text stay there. -/
theorem strip_visible {c d : CodePoint} (first : isBlank c = false) (second : isBlank d = false) :
    ∃ rest, strip (c :: d :: t) = c :: d :: rest := by
  have reversed : (c :: d :: t).reverse = t.reverse ++ [d, c] := by simp
  unfold strip stripBy
  rw [List.dropWhile_cons_of_neg (by simp [first]), reversed, List.dropWhile_append]
  split
  · exact ⟨[], by simp [second]⟩
  · exact ⟨(t.reverse.dropWhile isBlank).reverse, by simp⟩

end Strip

namespace Script

/-! ### Rows -/

/-- Rows of a script, one under the other. -/
def join (rows : List Text) : Text := List.intercalate ['\n'] rows

def IsRow (t : Text) : Prop := CodePoint.char '\n' ∉ t

theorem join_cons {row : Text} {rows : List Text} (more : rows ≠ []) :
    join (row :: rows) = row ++ .char '\n' :: join rows := by
  obtain ⟨next, rows, rfl⟩ := List.exists_cons_of_ne_nil more
  exact List.intercalate_cons_cons.trans (List.append_assoc _ _ _)

theorem join_singleton (row : Text) : join [row] = row := List.intercalate_singleton

theorem exists_rows (script : Text) : ∃ rows, rows ≠ [] ∧ (∀ row ∈ rows, IsRow row) ∧ script = join rows := by
  induction script with
  | nil => exact ⟨[[]], by simp, by simp [IsRow], rfl⟩
  | cons c script ih =>
    obtain ⟨rows, filled, single, rfl⟩ := ih
    by_cases ends : c = .char '\n'
    · subst ends
      refine ⟨[] :: rows, List.cons_ne_nil _ _, ?_, by rw [join_cons filled, List.nil_append]⟩
      intro row member
      rcases List.mem_cons.mp member with rfl | later
      · exact List.not_mem_nil
      · exact single row later
    · obtain ⟨row, rows, rfl⟩ := List.exists_cons_of_ne_nil filled
      have plain : IsRow (c :: row) := by
        intro member
        rcases List.mem_cons.mp member with same | inside
        · exact ends same.symm
        · exact single row List.mem_cons_self inside
      refine ⟨(c :: row) :: rows, List.cons_ne_nil _ _, ?_, ?_⟩
      · intro r member
        rcases List.mem_cons.mp member with rfl | later
        · exact plain
        · exact single r (List.mem_cons_of_mem row later)
      · rcases rows with _ | ⟨next, rows⟩
        · rw [join_singleton, join_singleton]
        · rw [join_cons (List.cons_ne_nil _ _), join_cons (List.cons_ne_nil _ _), List.cons_append]

theorem lines_join {rows : List Text} (single : ∀ row ∈ rows, IsRow row) :
    lines (join rows) = (rows.map strip).filter (!isSilent ·) := by
  rcases rows with _ | ⟨row, rows⟩
  · rfl
  · rw [lines, join, List.splitOn_intercalate (.char '\n') single (List.cons_ne_nil row rows)]

theorem lines_append (a b : Text) : lines (a ++ .char '\n' :: b) = lines a ++ lines b := by
  unfold lines
  simp only [List.splitOn_eq_splitOnP]
  rw [List.splitOnP_append_cons a b (by simp), List.map_append, List.filter_append]

/-! ### Changes of layout -/

/-- A row that says nothing: only blanks, or a comment, perhaps after blanks. -/
def IsSilentRow (row : Text) : Prop :=
  IsRow row ∧ ((∀ c ∈ row, isBlank c = true) ∨ ∃ (b : Blanks) (remark : Text), row = b.1 ++ (("//" : Text) ++ remark))

/-- A row with blanks around it. -/
def IsPadded (row padded : Text) : Prop :=
  IsRow padded ∧ ∃ before after : Blanks, padded = before.1 ++ (row ++ after.1)

/-- A script with a carriage return before each line break. -/
def withReturns (script : Text) : Text :=
  script.flatMap fun c => if c = .char '\n' then ['\r', '\n'] else [c]

/-- One change of the layout of a script. -/
inductive Relaid : Text → Text → Prop
  | returned (script : Text) : Relaid script (withReturns script)
  | inserted (before silent after : List Text) (single : ∀ row ∈ before ++ after, IsRow row)
      (quiet : ∀ row ∈ silent, IsSilentRow row) : Relaid (join (before ++ after)) (join (before ++ (silent ++ after)))
  | padded (rows padded : List Text) (single : ∀ row ∈ rows, IsRow row) (around : List.Forall₂ IsPadded rows padded) :
      Relaid (join rows) (join padded)

theorem isSilent_strip {row : Text} (silent : IsSilentRow row) : isSilent (strip row) = true := by
  obtain ⟨-, blank | ⟨b, remark, rfl⟩⟩ := silent
  · have empty : strip row = [] := by
      rw [← List.append_nil row, strip_blanks_append blank]
      rfl
    rw [empty]
    rfl
  · have visible : isBlank '/' = false := by decide
    obtain ⟨rest, kept⟩ := strip_visible (t := remark) visible visible
    have front : ("//" : Text) ++ remark = .char '/' :: .char '/' :: remark := rfl
    rw [strip_blanks_append b.2, front, kept]
    rfl

theorem strip_padded {row padded : Text} (around : IsPadded row padded) : strip padded = strip row := by
  obtain ⟨-, before, after, rfl⟩ := around
  rw [strip_blanks_append before.2, strip_append_blanks after.2]

theorem withReturns_append (a b : Text) : withReturns (a ++ b) = withReturns a ++ withReturns b :=
  List.flatMap_append

theorem withReturns_of_isRow {row : Text} (single : IsRow row) : withReturns row = row := by
  induction row with
  | nil => rfl
  | cons c row ih =>
    have rest : IsRow row := fun member => single (List.mem_cons_of_mem c member)
    have plain : c ≠ .char '\n' := by
      rintro rfl
      exact single List.mem_cons_self
    have start : withReturns (c :: row) = (if c = .char '\n' then ['\r', '\n'] else [c] : Text) ++ withReturns row :=
      List.flatMap_cons
    rw [start, if_neg plain, ih rest, List.singleton_append]

theorem lines_of_isRow {row : Text} (single : IsRow row) : lines row = [strip row].filter (!isSilent ·) := by
  have alone := @lines_join [row] (by simpa using single)
  rwa [join_singleton] at alone

theorem lines_withReturns (script : Text) : lines (withReturns script) = lines script := by
  obtain ⟨rows, filled, single, rfl⟩ := exists_rows script
  induction rows with
  | nil => exact absurd rfl filled
  | cons row rows ih =>
    have first : IsRow row := single row List.mem_cons_self
    rcases rows with _ | ⟨next, rows⟩
    · rw [join_singleton, withReturns_of_isRow first]
    · have later := ih (List.cons_ne_nil next rows) fun r member => single r (List.mem_cons_of_mem row member)
      have ending : withReturns (row ++ .char '\n' :: join (next :: rows)) =
          (row ++ [.char '\r']) ++ .char '\n' :: withReturns (join (next :: rows)) := by
        rw [withReturns_append, withReturns_of_isRow first, List.append_assoc]
        rfl
      have returned : IsRow (row ++ [.char '\r']) := by
        intro member
        rcases List.mem_append.mp member with inside | last
        · exact first inside
        · revert last
          decide
      -- the carriage return is a blank at the end of its row
      have trimmed : strip (row ++ [.char '\r']) = strip row := strip_append_blanks (by decide)
      rw [join_cons (List.cons_ne_nil next rows), ending, lines_append, lines_append, later, lines_of_isRow returned,
        lines_of_isRow first, trimmed]

theorem Relaid.lines_eq {script script' : Text} (h : Relaid script script') : lines script' = lines script := by
  cases h with
  | returned => exact lines_withReturns script
  | inserted before silent after single quiet =>
    have rows : ∀ row ∈ before ++ (silent ++ after), IsRow row := by
      intro row member
      rcases List.mem_append.mp member with front | later
      · exact single row (List.mem_append_left after front)
      rcases List.mem_append.mp later with between | back
      · exact (quiet row between).1
      · exact single row (List.mem_append_right before back)
    have none : (silent.map strip).filter (!isSilent ·) = [] := by
      rw [List.filter_eq_nil_iff]
      intro line member
      obtain ⟨row, inside, rfl⟩ := List.mem_map.mp member
      simp [isSilent_strip (quiet row inside)]
    rw [lines_join single, lines_join rows]
    simp only [List.map_append, List.filter_append]
    rw [none, List.nil_append]
  | padded rows padded single around =>
    have same : (∀ row ∈ padded, IsRow row) ∧ padded.map strip = rows.map strip := by
      clear single
      induction around with
      | nil => exact ⟨nofun, rfl⟩
      | cons first _ ih =>
        refine ⟨List.forall_mem_cons.mpr ⟨first.1, ih.1⟩, ?_⟩
        rw [List.map_cons, List.map_cons, strip_padded first, ih.2]
    rw [lines_join single, lines_join same.1, same.2]

/-! ### What a script asks for -/

section Outcome
variable {α : Type} [Arith α]

theorem indicators?_congr {script script' : Text} (same : lines script' = lines script) :
    (indicators? script' : Except ScriptError (List (Descriptor α))) = indicators? script := by
  rw [indicators?, indicators?, same]

theorem indicators?_append (a b : Text) :
    (indicators? (a ++ .char '\n' :: b) : Except ScriptError (List (Descriptor α))) = (do
      let first ← indicators? a
      let second ← indicators? b
      return first ++ second) := by
  unfold indicators?
  rw [lines_append, List.mapM_append]
  cases (lines a).mapM (Descriptor.ofLine? (α := α)) with
  | error e => rfl
  | ok first =>
    cases (lines b).mapM (Descriptor.ofLine? (α := α)) with
    | error e => rfl
    | ok second => simp [pure, Except.pure, List.filterMap_append]

end Outcome

/-- Scripts compose line by line, and their layout counts for nothing: two scripts one under the other ask for what
the first asks for and then for what the second does, and the error of the first of them that fails is the error of
both; and any number of changes of the layout, in either direction, leaves the outcome as it is. -/
theorem indicators?_layout (α : Type) [Arith α] :
    (∀ a b : Text, (indicators? (a ++ .char '\n' :: b) : Except ScriptError (List (Descriptor α))) = (do
      let first ← indicators? a
      let second ← indicators? b
      return first ++ second)) ∧
    ∀ script script' : Text, Relation.EqvGen Relaid script script' →
      (indicators? script' : Except ScriptError (List (Descriptor α))) = indicators? script := by
  refine ⟨indicators?_append, fun script script' related => indicators?_congr ?_⟩
  induction related with
  | rel _ _ step => exact step.lines_eq
  | refl _ => rfl
  | symm _ _ _ ih => exact ih.symm
  | trans _ _ _ _ _ first second => exact second.trans first

/-- A comment, an empty row, blanks of several kinds around the rows, and carriage returns. -/
theorem indicators?_of_untidy :
    let tidy : Text := "SMA 20\nBB 9 2"
    let untidy : Text := "\t// averages\r\n  SMA 20\u0085\r\n\r\nBB 9 2\u3000"
    Relation.EqvGen Relaid tidy untidy ∧
      (indicators? untidy : Except ScriptError (List (Descriptor Float))) = indicators? tidy := by
  intro tidy untidy
  have remark : Relaid tidy (join ["\t// averages", "SMA 20", "BB 9 2"]) :=
    .inserted [] ["\t// averages"] ["SMA 20", "BB 9 2"] (by unfold IsRow; decide) (by
      rw [List.forall_mem_singleton]
      exact ⟨by unfold IsRow; decide, Or.inr ⟨⟨"\t", by decide⟩, " averages", by decide⟩⟩)
  have empty : Relaid (join ["\t// averages", "SMA 20", "BB 9 2"]) (join ["\t// averages", "SMA 20", [], "BB 9 2"]) :=
    .inserted ["\t// averages", "SMA 20"] [[]] ["BB 9 2"] (by unfold IsRow; decide) (by
      rw [List.forall_mem_singleton]
      exact ⟨by unfold IsRow; decide, Or.inl nofun⟩)
  have kept {row : Text} (single : IsRow row) : IsPadded row row := ⟨single, ⟨[], nofun⟩, ⟨[], nofun⟩, by simp⟩
  have first : IsPadded "SMA 20" "  SMA 20\u0085" :=
    ⟨by unfold IsRow; decide, ⟨"  ", by decide⟩, ⟨"\u0085", by decide⟩, by decide⟩
  have last : IsPadded "BB 9 2" "BB 9 2\u3000" :=
    ⟨by unfold IsRow; decide, ⟨[], nofun⟩, ⟨"\u3000", by decide⟩, by decide⟩
  have padded : Relaid (join ["\t// averages", "SMA 20", [], "BB 9 2"])
      (join ["\t// averages", "  SMA 20\u0085", [], "BB 9 2\u3000"]) := by
    refine .padded _ _ (by unfold IsRow; decide) (.cons (kept ?_) (.cons first (.cons (kept ?_) (.cons last .nil))))
    · unfold IsRow
      decide
    · exact List.not_mem_nil
  have related : Relation.EqvGen Relaid tidy untidy :=
    .trans _ _ _ (.rel _ _ remark) (.trans _ _ _ (.rel _ _ empty) (.trans _ _ _ (.rel _ _ padded)
      (.rel _ _ (Relaid.returned _))))
  exact ⟨related, (indicators?_layout Float).2 tidy untidy related⟩

end Script

end ChartOverlay
