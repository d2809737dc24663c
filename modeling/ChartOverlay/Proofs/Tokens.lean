import ChartOverlay.Proofs.Parameters

/-!
# Rows of tokens

A call or a short form is a row of tokens with blanks between them. A token is read as far as it goes, so a row is
read exactly where it stands (`row_iff`): blanks end a token, and no token goes on in the next one. A search finds
the row that stands furthest left (`search_iff`).
-/

namespace ChartOverlay

/-- Parts in a row with at least so many blanks between them, and a rest behind them. -/
def Spaced (least : Nat) : List Text → Text → Text → Prop
  | [], t, rest => t = rest
  | [part], t, rest => t = part ++ rest
  | part :: parts, t, rest =>
    ∃ (b : Blanks) (u : Text), least ≤ b.1.length ∧ t = part ++ (b.1 ++ u) ∧ Spaced least parts u rest

/-- A form that stands in a text, and nowhere further left. -/
def IsLeftmost {β : Type} (form : β → Text → Prop) (t : Text) (v : β) : Prop :=
  ∃ front rest, t = front ++ rest ∧ form v rest ∧
    ∀ front' rest' v', t = front' ++ rest' → form v' rest' → front.length ≤ front'.length

def Stands {β : Type} (form : β → Text → Prop) (t : Text) : Prop :=
  ∃ front rest v, t = front ++ rest ∧ form v rest

namespace Scanner
variable {β γ : Type} {p : Scanner β} {t rest : Text}

/-! ### Reading as an equivalence -/

theorem bind_iff {f : β → Scanner γ} {c : γ} :
    (p >>= f) t = some (c, rest) ↔ ∃ b middle, p t = some (b, middle) ∧ f b middle = some (c, rest) := by
  constructor
  · exact bind_some
  · rintro ⟨b, middle, first, second⟩
    rw [bind_of_some first, second]

theorem pure_iff {b c : β} : (pure b : Scanner β) t = some (c, rest) ↔ b = c ∧ t = rest := by
  simp [pure, StateT.pure]

theorem map_iff {f : β → γ} {c : γ} : (f <$> p) t = some (c, rest) ↔ ∃ b, p t = some (b, rest) ∧ f b = c := by
  rw [map_eq_pure_bind, bind_iff]
  simp [pure_iff]

theorem orElse_iff {q : Scanner β} {r : β × Text} :
    (p <|> q) t = some r ↔ p t = some r ∨ p t = none ∧ q t = some r := by
  cases first : p t <;> simp [HOrElse.hOrElse, OrElse.orElse, Alternative.orElse, StateT.orElse, first]

theorem point_iff {accepts : CodePoint → Bool} {c : CodePoint} :
    point accepts t = some (c, rest) ↔ accepts c = true ∧ t = c :: rest := by
  rcases t with _ | ⟨d, t⟩
  · simp [point]
  · by_cases accepted : accepts d = true
    · simp only [point, accepted, if_true, Option.some.injEq, Prod.mk.injEq, List.cons.injEq]
      constructor
      · rintro ⟨rfl, rfl⟩
        exact ⟨accepted, rfl, rfl⟩
      · rintro ⟨-, rfl, rfl⟩
        exact ⟨rfl, rfl⟩
    · simp only [point, accepted, List.cons.injEq]
      constructor
      · intro read
        cases read
      · rintro ⟨accepted', rfl, -⟩
        exact absurd accepted' accepted

theorem many_iff {accepts : CodePoint → Bool} {w : Text} : many accepts t = some (w, rest) ↔
    t = w ++ rest ∧ (∀ c ∈ w, accepts c = true) ∧ ∀ c ∈ rest.head?, accepts c = false := by
  constructor
  · intro h
    obtain ⟨rfl, rfl⟩ := Prod.mk.inj (Option.some.inj h)
    refine ⟨List.takeWhile_append_dropWhile.symm, fun c member => List.mem_takeWhile_imp member, ?_⟩
    intro c first
    have := List.head?_dropWhile_not accepts t
    rw [Option.mem_def.mp first] at this
    simpa using this
  · rintro ⟨rfl, all, stops⟩
    exact many_append all stops

theorem some1_iff {accepts : CodePoint → Bool} {w : Text} : some1 accepts t = some (w, rest) ↔
    (w ≠ [] ∧ ∀ c ∈ w, accepts c = true) ∧ t = w ++ rest ∧ ∀ c ∈ rest.head?, accepts c = false := by
  simp only [some1, bind_iff, pure_iff, point_iff, many_iff]
  constructor
  · rintro ⟨c, _, ⟨first, rfl⟩, more, _, ⟨rfl, all, stops⟩, rfl, rfl⟩
    exact ⟨⟨List.cons_ne_nil c more, List.forall_mem_cons.mpr ⟨first, all⟩⟩, rfl, stops⟩
  · rintro ⟨⟨filled, all⟩, rfl, stops⟩
    obtain ⟨c, more, rfl⟩ := List.exists_cons_of_ne_nil filled
    obtain ⟨first, all⟩ := List.forall_mem_cons.mp all
    exact ⟨c, more ++ rest, ⟨first, rfl⟩, more, rest, ⟨rfl, all, stops⟩, rfl, rfl⟩

theorem mapM_point_iff {δ : Type} {accepts : δ → CodePoint → Bool} {xs : List δ} {w : Text} :
    xs.mapM (fun x => point (accepts x)) t = some (w, rest) ↔
      List.Forall₂ (fun x c => accepts x c = true) xs w ∧ t = w ++ rest := by
  induction xs generalizing t rest w with
  | nil =>
    rw [List.mapM_nil, pure_iff, List.forall₂_nil_left_iff]
    constructor
    · rintro ⟨rfl, rfl⟩
      exact ⟨rfl, rfl⟩
    · rintro ⟨rfl, rfl⟩
      exact ⟨rfl, rfl⟩
  | cons x xs ih =>
    simp only [List.mapM_cons, bind_iff, pure_iff, point_iff, ih, List.forall₂_cons_left_iff]
    constructor
    · rintro ⟨c, _, ⟨first, rfl⟩, w, _, ⟨all, rfl⟩, rfl, rfl⟩
      exact ⟨⟨c, w, first, all, rfl⟩, rfl⟩
    · rintro ⟨⟨c, w, first, all, rfl⟩, rfl⟩
      exact ⟨c, w ++ rest, ⟨first, rfl⟩, w, rest, ⟨all, rfl⟩, rfl, rfl⟩

theorem word_iff {letters : String} {w : Text} :
    word letters t = some (w, rest) ↔ Spells letters w ∧ t = w ++ rest := mapM_point_iff

theorem finish_iff {u : Unit} : finish t = some (u, rest) ↔ t = rest ∧ (t = [] ∨ t = ['\n']) := by
  unfold finish
  split <;> simp_all [eq_comm]

/-! ### Tokens -/

/-- Something that a scanner reads as far as it goes. -/
structure Token where
  scan : Scanner Text
  form : Text → Prop
  /-- What the token would go on with. -/
  goesOn : Text → CodePoint → Bool := fun _ _ => false
  visible : ∀ {v}, form v → ∃ c t, v = c :: t ∧ isBlank c = false
  ends : ∀ {v c}, isBlank c = true → goesOn v c = false := by exact fun _ => rfl
  reads : ∀ {t v rest : Text}, scan t = some (v, rest) ↔
    form v ∧ t = v ++ rest ∧ ∀ c ∈ rest.head?, goesOn v c = false

/-- A scanner for at least so many blanks, and all that come. -/
def IsGap (least : Nat) (gap : Scanner Unit) : Prop := ∀ t rest : Text, gap t = some ((), rest) ↔
  ∃ b : Blanks, least ≤ b.1.length ∧ t = b.1 ++ rest ∧ ∀ c ∈ rest.head?, isBlank c = false

theorem discard_iff {u : Unit} : (discard p : Scanner Unit) t = some (u, rest) ↔ ∃ b, p t = some (b, rest) := by
  rw [discard_eq]
  simp

theorem blanks_isGap : IsGap 0 blanks := by
  intro t rest
  rw [blanks, discard_iff]
  simp only [many_iff]
  constructor
  · rintro ⟨w, rfl, blank, visible⟩
    exact ⟨⟨w, blank⟩, Nat.zero_le _, rfl, visible⟩
  · rintro ⟨b, -, rfl, visible⟩
    exact ⟨b.1, rfl, b.2, visible⟩

theorem blanks1_isGap : IsGap 1 blanks1 := by
  intro t rest
  rw [blanks1, discard_iff]
  simp only [some1_iff]
  constructor
  · rintro ⟨w, ⟨filled, blank⟩, rfl, visible⟩
    exact ⟨⟨w, blank⟩, List.length_pos_iff.mpr filled, rfl, visible⟩
  · rintro ⟨b, filled, rfl, visible⟩
    exact ⟨b.1, ⟨List.length_pos_iff.mp filled, b.2⟩, rfl, visible⟩

/-- Tokens with gaps between them. -/
def row (gap : Scanner Unit) : List Token → Scanner (List Text)
  | [] => pure []
  | [p] => do return [← p.scan]
  | p :: q :: ps => do
    let v ← p.scan
    gap
    return v :: (← row gap (q :: ps))

/-- Where gaps may be empty, no token goes on in the next one. -/
def Apart (least : Nat) : List Token → Prop
  | [] => True
  | [_] => True
  | p :: q :: ps =>
    (least = 0 → ∀ v w c, p.form v → q.form w → c ∈ w.head? → p.goesOn v c = false) ∧ Apart least (q :: ps)

/-- What is behind a row does not go on with its last token. -/
def Closed (tokens : List Token) (vs : List Text) (rest : Text) : Prop :=
  ∀ last ∈ (tokens.zip vs).getLast?, ∀ c ∈ rest.head?, last.1.goesOn last.2 c = false

theorem row_iff {least : Nat} {gap : Scanner Unit} (isGap : IsGap least gap) {tokens : List Token}
    (apart : Apart least tokens) {vs : List Text} {t rest : Text} :
    row gap tokens t = some (vs, rest) ↔
      List.Forall₂ (fun p v => p.form v) tokens vs ∧ Spaced least vs t rest ∧ Closed tokens vs rest := by
  -- what closes a row is told by its last token, so it goes through the induction unchanged
  induction tokens generalizing t rest vs with
  | nil =>
    rw [row, pure_iff, List.forall₂_nil_left_iff]
    constructor
    · rintro ⟨rfl, rfl⟩
      exact ⟨rfl, rfl, nofun⟩
    · rintro ⟨rfl, same, -⟩
      exact ⟨rfl, same⟩
  | cons p ps ih =>
    rcases ps with _ | ⟨q, ps⟩
    · simp only [row, bind_iff, pure_iff, p.reads, List.forall₂_cons_left_iff, List.forall₂_nil_left_iff]
      constructor
      · rintro ⟨v, _, ⟨form, rfl, stops⟩, rfl, rfl⟩
        exact ⟨⟨v, [], form, rfl, rfl⟩, rfl, by simpa [Closed] using stops⟩
      · rintro ⟨⟨v, _, form, rfl, rfl⟩, rfl, stops⟩
        exact ⟨v, rest, ⟨form, rfl, by simpa [Closed] using stops⟩, rfl, rfl⟩
    have closed (v w : Text) (ws : List Text) (rest : Text) :
        Closed (p :: q :: ps) (v :: w :: ws) rest ↔ Closed (q :: ps) (w :: ws) rest := by
      simp [Closed, List.getLast?_cons_cons]
    simp only [row, bind_iff, pure_iff, p.reads, isGap _ _, ih apart.2]
    constructor
    · rintro ⟨v, _, ⟨form, rfl, -⟩, _, _, ⟨b, wide, rfl, -⟩, ws, _, ⟨forms, spaced, stops⟩, rfl, rfl⟩
      obtain ⟨w, ws, first, others, rfl⟩ := List.forall₂_cons_left_iff.mp forms
      exact ⟨.cons form forms, ⟨b, _, wide, rfl, spaced⟩, (closed v w ws _).mpr stops⟩
    · rintro ⟨forms, spaced, stops⟩
      obtain ⟨v, _, form, later, rfl⟩ := List.forall₂_cons_left_iff.mp forms
      obtain ⟨w, ws, first, others, rfl⟩ := List.forall₂_cons_left_iff.mp later
      obtain ⟨b, u, wide, rfl, spaced⟩ := spaced
      obtain ⟨c, w', rfl, visible⟩ := q.visible first
      have starts : ∃ u', u = c :: u' := by
        rcases ws with _ | ⟨_, _⟩
        · exact ⟨_, spaced⟩
        · obtain ⟨_, _, -, same, -⟩ := spaced
          exact ⟨_, same⟩
      obtain ⟨u', rfl⟩ := starts
      -- the token ends at the blanks, or at the next token where there are none
      refine ⟨v, b.1 ++ (c :: u'), ⟨form, rfl, ?_⟩, (), c :: u', ⟨b, wide, rfl, ?_⟩, _, rest,
        ⟨.cons first others, spaced, (closed _ _ _ _).mp stops⟩, rfl, rfl⟩
      · intro d head
        rcases blanks : b.1 with _ | ⟨e, b'⟩
        · rw [blanks] at head wide
          obtain rfl : c = d := by simpa using head
          exact apart.1 (Nat.le_zero.mp wide) v _ c form first rfl
        · rw [blanks] at head
          obtain rfl : e = d := by simpa using head
          exact p.ends (b.2 e (by rw [blanks]; exact List.mem_cons_self))
      · intro d head
        obtain rfl : c = d := by simpa using head
        exact visible

/-! ### Searching -/

theorem read?_iff {v : β} : p.read? t = some v ↔ ∃ rest, p t = some (v, rest) := by
  simp [read?]

section Search
variable {form : β → Text → Prop}

theorem stands_nil : Stands form [] ↔ ∃ v, form v [] := by
  constructor
  · rintro ⟨front, rest, v, split, stands⟩
    obtain ⟨-, rfl⟩ := List.append_eq_nil_iff.mp split.symm
    exact ⟨v, stands⟩
  · rintro ⟨v, stands⟩
    exact ⟨[], [], v, rfl, stands⟩

theorem stands_cons {c : CodePoint} : Stands form (c :: t) ↔ (∃ v, form v (c :: t)) ∨ Stands form t := by
  constructor
  · rintro ⟨front, rest, v, split, stands⟩
    rcases front with _ | ⟨d, front⟩
    · exact Or.inl ⟨v, split ▸ stands⟩
    · obtain ⟨rfl, rfl⟩ := List.cons.inj split
      exact Or.inr ⟨front, rest, v, rfl, stands⟩
  · rintro (⟨v, stands⟩ | ⟨front, rest, v, rfl, stands⟩)
    · exact ⟨[], c :: t, v, rfl, stands⟩
    · exact ⟨c :: front, rest, v, rfl, stands⟩

theorem isLeftmost_nil {v : β} : IsLeftmost form [] v ↔ form v [] := by
  constructor
  · rintro ⟨front, rest, split, stands, -⟩
    obtain ⟨-, rfl⟩ := List.append_eq_nil_iff.mp split.symm
    exact stands
  · intro stands
    exact ⟨[], [], rfl, stands, fun front _ _ _ _ => Nat.zero_le front.length⟩

theorem isLeftmost_cons {c : CodePoint} {v : β} :
    IsLeftmost form (c :: t) v ↔ form v (c :: t) ∨ (∀ w, ¬form w (c :: t)) ∧ IsLeftmost form t v := by
  constructor
  · rintro ⟨front, rest, split, stands, least⟩
    rcases front with _ | ⟨d, front⟩
    · exact Or.inl (split ▸ stands)
    · obtain ⟨rfl, rfl⟩ := List.cons.inj split
      refine Or.inr ⟨fun w here => absurd (least [] _ w rfl here) (Nat.not_succ_le_zero _),
        front, rest, rfl, stands, ?_⟩
      intro front' rest' v' split' stands'
      exact Nat.le_of_succ_le_succ (least (c :: front') rest' v' (congrArg (c :: ·) split') stands')
  · rintro (stands | ⟨absent, front, rest, rfl, stands, least⟩)
    · exact ⟨[], c :: t, rfl, stands, fun front _ _ _ _ => Nat.zero_le front.length⟩
    · refine ⟨c :: front, rest, rfl, stands, ?_⟩
      intro front' rest' v' split' stands'
      rcases front' with _ | ⟨d, front'⟩
      · exact absurd (split' ▸ stands') (absent v')
      · exact Nat.succ_le_succ (least front' rest' v' (List.cons.inj split').2 stands')

theorem search_none_iff (reads : ∀ t v, p.read? t = some v ↔ form v t) : search p t = none ↔ ¬Stands form t := by
  have unread (t : Text) : p.read? t = none ↔ ¬∃ v, form v t := by
    rw [Option.eq_none_iff_forall_ne_some]
    simp [reads]
  induction t with
  | nil => rw [search, unread, stands_nil]
  | cons c t ih =>
    rw [stands_cons, not_or, ← unread, search]
    cases p.read? (c :: t) <;> simp [ih]

theorem search_iff (reads : ∀ t v, p.read? t = some v ↔ form v t) {v : β} :
    search p t = some v ↔ IsLeftmost form t v := by
  induction t with
  | nil => rw [search, reads, isLeftmost_nil]
  | cons c t ih =>
    rw [isLeftmost_cons, ← ih, ← reads, search]
    cases here : p.read? (c :: t) with
    | none =>
      have absent : ∀ w, ¬form w (c :: t) := by
        intro w stands
        rw [(reads _ w).mpr stands] at here
        cases here
      simp [absent]
    | some w =>
      have stands := (reads _ w).mp here
      have present : ¬∀ w, ¬form w (c :: t) := fun absent => absent w stands
      simp [present]

end Search

end Scanner

end ChartOverlay
